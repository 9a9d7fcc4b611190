import Mathlib.Logic.Function.Basic
import Mathlib.Data.List.Basic

/-!
# BlockMap

Allocation maps.  A pool is cut into units of one size, and a table holds an
entry for each: zero where the unit is free, and the length of its block where
it belongs to one.

* `fill` — the loop that writes a value into a run of entries;
* `search` — the loop that looks for a run of free entries, from the end of the
  table down; it finds one exactly where there is `Room`;
* `Represents` — the blocks that a table stands for.  Marking a free run adds
  its block (`Represents.mark`), clearing a block takes it out
  (`Represents.clear`), and neighbours of equal length stay apart.
-/

namespace BlockMap

variable {α : Type}

/-! ## Blocks -/

/-- The block of `len` units from `start` on. -/
structure Block where
  start : Nat
  len : Nat
  deriving DecidableEq, Repr

namespace Block

/-- The unit belongs to the block. -/
def Has (b : Block) (i : Nat) : Prop := b.start ≤ i ∧ i < b.start + b.len

instance (b : Block) (i : Nat) : Decidable (b.Has i) := inferInstanceAs (Decidable (_ ∧ _))

/-- One block ends where the other one starts, or before. -/
def Apart (b c : Block) : Prop := b.start + b.len ≤ c.start ∨ c.start + c.len ≤ b.start

theorem Apart.symm {b c : Block} (h : b.Apart c) : c.Apart b := Or.symm h

theorem Apart.not_has {b c : Block} (h : b.Apart c) {i : Nat} (hb : b.Has i) : ¬ c.Has i := by
  unfold Apart Has at *
  omega

/-- Blocks without a common unit are apart. -/
theorem apart_of_forall {b c : Block} (hb : 0 < b.len) (hc : 0 < c.len)
    (h : ∀ i, b.Has i → ¬ c.Has i) : b.Apart c := by
  have hmax := h (max b.start c.start)
  unfold Apart Has at *
  omega

end Block

/-! ## Writing a run -/

/-- `n` entries from `start` on are set to `v`, one after the other. -/
def fill (m : Nat → α) (start : Nat) (v : α) : Nat → Nat → α
  | 0 => m
  | n + 1 => Function.update (fill m start v n) (start + n) v

theorem fill_apply (m : Nat → α) (start : Nat) (v : α) (n i : Nat) :
    fill m start v n i = if start ≤ i ∧ i < start + n then v else m i := by
  induction n with
  | zero => rw [fill, if_neg (by omega)]
  | succ n ih =>
      rw [fill, Function.update_apply, ih]
      grind

theorem fill_of_has (m : Nat → α) (v : α) {b : Block} {i : Nat} (h : b.Has i) :
    fill m b.start v b.len i = v := by
  rw [fill_apply]
  exact if_pos h

theorem fill_of_not_has (m : Nat → α) (v : α) {b : Block} {i : Nat} (h : ¬ b.Has i) :
    fill m b.start v b.len i = m i := by
  rw [fill_apply]
  exact if_neg h

/-! ## Searching a run -/

/-- The search for `n` free entries in a row, downward from entry `k`, when the `c`
entries from `k` on are free. -/
def search (free : Nat → Bool) (n : Nat) : Nat → Nat → Option Nat
  | 0, _ => none
  | k + 1, c =>
    let c := if free k then c + 1 else 0
    if c = n then some k else search free n k c

/-- Somewhere below `size` there are `n` free entries in a row. -/
def Room (free : Nat → Bool) (n size : Nat) : Prop :=
  ∃ start, start + n ≤ size ∧ ∀ i, start ≤ i → i < start + n → free i = true

/-- What the search finds is free. -/
theorem search_sound {free : Nat → Bool} {n k c start : Nat}
    (h : search free n k c = some start) (hc : ∀ i, k ≤ i → i < k + c → free i = true) :
    start + n ≤ k + c ∧ ∀ i, start ≤ i → i < start + n → free i = true := by
  induction k generalizing c with
  | zero => simp [search] at h
  | succ k ih => grind [search]

/-- The search misses nothing. -/
theorem search_complete {free : Nat → Bool} {n k c : Nat} (h : search free n k c = none)
    (hc : c < n) {start : Nat} (hstart : start + n ≤ k + c) :
    ∃ i, start ≤ i ∧ i < start + n ∧ free i = false := by
  induction k generalizing c with
  | zero => omega
  | succ k ih => grind [search]

theorem search_eq_none_iff {free : Nat → Bool} {n size : Nat} (hn : 0 < n) :
    search free n size 0 = none ↔ ¬ Room free n size := by
  constructor
  · intro h ⟨start, hle, hfree⟩
    obtain ⟨i, hge, hlt, hnot⟩ := search_complete h hn hle
    grind
  · intro h
    cases hs : search free n size 0 with
    | none => simp
    | some start => exact absurd ⟨start, search_sound hs (by omega)⟩ h

/-- `n` free entries in a row from `start` on, below `size`. -/
def FreeRun (free : Nat → Bool) (n size start : Nat) : Prop :=
  start + n ≤ size ∧ ∀ i, start ≤ i → i < start + n → free i = true

/-- The last such run. -/
def HighestRun (free : Nat → Bool) (n size start : Nat) : Prop :=
  FreeRun free n size start ∧ ∀ start', FreeRun free n size start' → start' ≤ start

/-- The run found is the highest one. -/
theorem search_highest {free : Nat → Bool} {n k c start : Nat}
    (h : search free n k c = some start) (hc : c < n) {start' : Nat} (hle : start' + n ≤ k + c)
    (hfree : ∀ i, start' ≤ i → i < start' + n → free i = true) : start' ≤ start := by
  induction k generalizing c with
  | zero => simp [search] at h
  | succ k ih => grind [search]

theorem search_eq_some_iff {free : Nat → Bool} {n size start : Nat} (hn : 0 < n) :
    search free n size 0 = some start ↔ HighestRun free n size start := by
  have hsound : ∀ start, search free n size 0 = some start → HighestRun free n size start :=
    fun start h => ⟨search_sound h (by omega), fun start' hrun => search_highest h hn hrun.1 hrun.2⟩
  refine ⟨hsound start, fun h => ?_⟩
  cases hs : search free n size 0 with
  | none => exact absurd ⟨start, h.1⟩ ((search_eq_none_iff hn).mp hs)
  | some start' =>
      obtain ⟨hrun, hmax⟩ := hsound start' hs
      have hle := h.2 start' hrun
      have hge := hmax start h.1
      rw [Nat.le_antisymm hle hge]

/-- Runs of these lengths fit one after the other, each at the highest place that the ones
before leave. -/
def FitsAll (size : Nat) : (free : Nat → Bool) → List Nat → Prop
  | _, [] => True
  | free, n :: ns => ∃ start, HighestRun free n size start ∧
      FitsAll size (fun i => free i && !(decide (start ≤ i) && decide (i < start + n))) ns

/-- Only the entries below `size` matter. -/
theorem FitsAll.congr {size : Nat} {free free' : Nat → Bool} {ns : List Nat}
    (h : ∀ i < size, free i = free' i) : FitsAll size free ns → FitsAll size free' ns := by
  induction ns generalizing free free' with
  | nil => exact id
  | cons n ns ih =>
      have hrun : ∀ start, FreeRun free n size start ↔ FreeRun free' n size start := by
        intro start
        refine and_congr_right fun hle => forall_congr' fun i => ?_
        refine forall_congr' fun _ => forall_congr' fun hlt => ?_
        rw [h i (by omega)]
      rintro ⟨start, ⟨hfree, hmax⟩, hrest⟩
      refine ⟨start, ⟨(hrun start).mp hfree, fun start' hs => hmax start' ((hrun start').mpr hs)⟩,
        ih (fun i hi => ?_) hrest⟩
      simp only [h i hi]

/-! ## The blocks of a table -/

/-- The table `m` of `size` entries stands for the blocks `live`: an entry of a block holds the
`code` of its length, and a free one `zero`. -/
structure Represents (zero : α) (code : Nat → α) (size : Nat) (m : Nat → α)
    (live : List Block) : Prop where
  pos : ∀ b ∈ live, 0 < b.len
  inside : ∀ b ∈ live, b.start + b.len ≤ size
  apart : live.Pairwise Block.Apart
  entries : ∀ b ∈ live, ∀ i, b.Has i → m i = code b.len
  rest : ∀ i < size, (∀ b ∈ live, ¬ b.Has i) → m i = zero

namespace Represents

variable {zero : α} {code : Nat → α} {size : Nat} {m : Nat → α} {live live' : List Block}
  {b : Block}

/-- A table of zeros stands for no block. -/
theorem nil (h : ∀ i < size, m i = zero) : Represents zero code size m [] :=
  ⟨by simp, by simp, List.Pairwise.nil, by simp, fun i hi _ => h i hi⟩

/-- The order of the blocks does not matter. -/
theorem perm (h : Represents zero code size m live) (hp : live.Perm live') :
    Represents zero code size m live' where
  pos c hc := h.pos c (hp.mem_iff.mpr hc)
  inside c hc := h.inside c (hp.mem_iff.mpr hc)
  apart := (hp.pairwise_iff Block.Apart.symm).mp h.apart
  entries c hc := h.entries c (hp.mem_iff.mpr hc)
  rest i hi hnot := h.rest i hi fun c hc => hnot c (hp.mem_iff.mp hc)

/-- The first entry of a block holds the code of its length. -/
theorem entry_start (h : Represents zero code size m live) (hb : b ∈ live) :
    m b.start = code b.len :=
  h.entries b hb b.start ⟨Nat.le_refl _, by have := h.pos b hb; omega⟩

/-- Marking a free run adds its block. -/
theorem mark (h : Represents zero code size m live)
    (hcode : ∀ n, 0 < n → n ≤ size → code n ≠ zero) (hpos : 0 < b.len)
    (hin : b.start + b.len ≤ size) (hfree : ∀ i, b.Has i → m i = zero) :
    Represents zero code size (fill m b.start (code b.len) b.len) (b :: live) := by
  -- an entry of a live block is not free
  have hnot : ∀ c ∈ live, ∀ i, b.Has i → ¬ c.Has i := by
    intro c hc i hb hci
    have hlen := h.inside c hc
    refine hcode c.len (h.pos c hc) (by omega) ?_
    rw [← h.entries c hc i hci, hfree i hb]
  constructor
  · simpa using ⟨hpos, h.pos⟩
  · simpa using ⟨hin, h.inside⟩
  · refine List.pairwise_cons.mpr ⟨fun c hc => ?_, h.apart⟩
    exact Block.apart_of_forall hpos (h.pos c hc) (hnot c hc)
  · intro c hc i hi
    cases List.mem_cons.mp hc with
    | inl heq => rw [heq] at hi ⊢; exact fill_of_has m _ hi
    | inr hmem =>
        rw [fill_of_not_has m _ fun hb => hnot c hmem i hb hi]
        exact h.entries c hmem i hi
  · intro i hi hout
    rw [List.forall_mem_cons] at hout
    rw [fill_of_not_has m _ hout.1]
    exact h.rest i hi hout.2

/-- Clearing a block takes it out. -/
theorem clear (h : Represents zero code size m (b :: live)) :
    Represents zero code size (fill m b.start zero b.len) live := by
  obtain ⟨hapart, hrest⟩ := List.pairwise_cons.mp h.apart
  constructor
  · exact fun c hc => h.pos c (List.mem_cons_of_mem b hc)
  · exact fun c hc => h.inside c (List.mem_cons_of_mem b hc)
  · exact hrest
  · intro c hc i hi
    rw [fill_of_not_has m _ fun hb => (hapart c hc).not_has hb hi]
    exact h.entries c (List.mem_cons_of_mem b hc) i hi
  · intro i hi hout
    by_cases hb : b.Has i
    · exact fill_of_has m _ hb
    · rw [fill_of_not_has m _ hb]
      exact h.rest i hi (List.forall_mem_cons.mpr ⟨hb, hout⟩)

end Represents

end BlockMap
