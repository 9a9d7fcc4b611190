import NetCamera.Lib.Run
import NetCamera.Lwip.Release

/-!
# NetCamera.Lwip.Arena

The heap of lwIP in use.  Its clients ask for memory, write into what they were given, make it
smaller and give it back; they free and trim only what is theirs, and write nowhere else.

In every run the blocks of the heap stand for the memory handed out (`Arena.Inv`).  So what was
handed out never overlaps and is never written by others (`run_apart`, `run_kept`), a request is
answered from the lowest gap that is long enough, and refused only if there is none
(`run_first_fit`), and when all is given back the heap is as it was at the start (`run_all_free`).
-/

namespace NetCamera.Lwip

open Run Tiling MemHeap

/-- Memory handed out: the pointer, and how many bytes its owner may use. -/
structure Grant where
  rmem : Nat
  size : Nat
  deriving DecidableEq, Repr

def Grant.Has (g : Grant) (addr : Nat) : Prop := g.rmem ≤ addr ∧ addr < g.rmem + g.size

instance (g : Grant) (addr : Nat) : Decidable (g.Has addr) := inferInstanceAs (Decidable (_ ∧ _))

/-- Neither reaches into the other one. -/
def Grant.Apart (g g' : Grant) : Prop := g.rmem + g.size ≤ g'.rmem ∨ g'.rmem + g'.size ≤ g.rmem

/-- The heap, and what is handed out of it. -/
structure Arena where
  heap : MemHeap
  grants : List Grant

inductive MemEvent where
  | mem_malloc (size : Nat)
  | mem_free (rmem : Nat)
  | mem_trim (rmem newsize : Nat)
  | store (addr : Nat) (b : UInt8)
  deriving DecidableEq, Repr

namespace Arena

/-- After `mem_init`. -/
def boot (ram_heap : Nat) (bytes : Nat → UInt8) : Arena := ⟨mem_init ⟨0, bytes, 0⟩ ram_heap, []⟩

/-- One event; a client frees and trims only what it was given, or frees what `mem_free` ignores,
and writes only into what it was given. -/
def step (s : Arena) : MemEvent → Option Arena
  | .mem_malloc size => (s.heap.mem_malloc size).map fun (p, h) =>
      ⟨h, if p = 0 then s.grants else ⟨p, blockSize size⟩ :: s.grants⟩
  | .mem_free rmem =>
    if rmem = 0 ∨ s.heap.Illegal rmem ∨ ∃ g ∈ s.grants, g.rmem = rmem then
      some ⟨s.heap.mem_free rmem, s.grants.filter (·.rmem ≠ rmem)⟩
    else none
  | .mem_trim rmem newsize =>
    if ∃ g ∈ s.grants, g.rmem = rmem then
      let (p, h) := s.heap.mem_trim rmem newsize
      some ⟨h, if p = 0 then s.grants
        else s.grants.map fun g => if g.rmem = rmem then ⟨rmem, blockSize newsize⟩ else g⟩
    else none
  | .store addr b =>
    if ∃ g ∈ s.grants, g.Has addr then
      some ⟨{ s.heap with bytes := Function.update s.heap.bytes (addr - s.heap.ram) b }, s.grants⟩
    else none

/-- The byte at an address. -/
def byte (s : Arena) (addr : Nat) : UInt8 := s.heap.bytes (addr - s.heap.ram)

/-! ## The blocks stand for the grants -/

/-- A used block as a grant. -/
def grantOf (ram : Nat) (x : Nat × Cell Nat) : Grant := ⟨ram + x.1 + 8, x.2.owner.getD 0⟩

structure Inv (s : Arena) (cs : List (Cell Nat)) : Prop where
  blocks : s.heap.Blocks cs
  grants : s.grants.Perm ((owned 0 cs).map (grantOf s.heap.ram))
  aligned : s.heap.ram % 4 = 0

variable {s s' : Arena} {cs pre post : List (Cell Nat)} {c : Cell Nat}

/-- The two headers that `mem_init` writes. -/
theorem hdr_ends (h : MemHeap) {e : Nat} (hlow : 8 ≤ e) (hhigh : e < 65536) :
    let k := ((((((h.setNext 0 e).setPrev 0 0).setUsed 0 0).setUsed e 1).setNext e e).setPrev e e)
    k.hdr 0 = ⟨e, 0, false⟩ ∧ (k.hdr e).used = true := by
  constructor
  · rw [hdr_congr fun a _ ha => bytes_setPrev _ _ _ (by omega),
      hdr_congr fun a _ ha => bytes_setNext _ _ _ (by omega),
      hdr_congr fun a _ ha => bytes_setUsed _ _ _ (by omega), hdr_setUsed, hdr_setPrev (by omega),
      hdr_setNext hhigh]
    rfl
  · rw [hdr_setPrev hhigh, hdr_setNext hhigh, hdr_setUsed]
    rfl

theorem blocks_mem_init (h : MemHeap) (ram_heap : Nat) :
    (h.mem_init ram_heap).Blocks [⟨16000, none⟩] := by
  obtain ⟨hfirst, hend⟩ := hdr_ends { h with ram := LWIP_MEM_ALIGN_SIZE ram_heap }
    (show 8 ≤ 16000 by omega) (by omega)
  rw [mem_init, MEM_SIZE_ALIGNED]
  generalize (((((MemHeap.setNext { h with ram := LWIP_MEM_ALIGN_SIZE ram_heap } 0 16000).setPrev 0
    0).setUsed 0 0).setUsed 16000 1).setNext 16000 16000).setPrev 16000 16000 = k at *
  have hlays : k.Lays [⟨16000, none⟩] :=
    ⟨laid_cons.mpr ⟨hfirst, trivial⟩, rfl, by simp, hend⟩
  exact ⟨hlays.setLfree 0, .singleton _, by simp [owned],
    ⟨by simp, .inr ⟨⟨16000, none⟩, by simp, free_mk _⟩⟩⟩

/-- A grant is the data of a used block. -/
theorem Inv.block (hinv : s.Inv cs) {g : Grant} (hg : g ∈ s.grants) :
    ∃ pre c post, cs = pre ++ c :: post ∧ ¬ c.Free ∧ c.owner = some g.size ∧
      g.rmem = s.heap.ram + extent pre + 8 ∧ g.size + 8 ≤ c.len := by
  obtain ⟨⟨o, c⟩, hx, rfl⟩ := List.mem_map.mp (hinv.grants.mem_iff.mp hg)
  obtain ⟨hplaced, hc⟩ := mem_owned.mp hx
  obtain ⟨pre, post, rfl, rfl⟩ := mem_placed.mp hplaced
  obtain ⟨n, hn⟩ : ∃ n, c.owner = some n := Option.ne_none_iff_exists'.mp hc
  refine ⟨pre, c, post, rfl, hc, ?_, ?_, ?_⟩
  · simp [grantOf, hn]
  · simp [grantOf]
  · have := hinv.blocks.fits _ hx n (by simp [hn])
    simpa [grantOf, hn] using this

/-- Of a block and the others only the block starts where it does. -/
theorem start_ne (hpos : ∀ d ∈ pre ++ c :: post, 0 < d.len) {ram : Nat} {x : Nat × Cell Nat}
    (hx : x ∈ owned 0 pre ++ owned (extent pre + c.len) post) :
    (grantOf ram x).rmem ≠ ram + extent pre + 8 := by
  have hc := hpos c (by simp)
  rw [grantOf]
  rcases List.mem_append.mp hx with hx | hx
  · have hplaced := (mem_owned.mp hx).1
    have hbounds := placed_bounds hplaced
    have := hpos _ (List.mem_append_left _ (mem_of_placed hplaced))
    dsimp only
    omega
  · have := (placed_bounds (mem_owned.mp hx).1).1
    dsimp only
    omega

/-- What a step leaves of the memory handed out. -/
def KeepsGrant (s s' : Arena) (g : Grant) : Prop :=
  g ∈ s'.grants ∧ ∀ addr, g.Has addr → s'.byte addr = s.byte addr

/-- The data of a block, seen through its pointer. -/
theorem byte_of_same {h : MemHeap} (hram : h.ram = s.heap.ram) {x : Nat × Cell Nat}
    (hsame : Same s.heap h x) (hfit : (grantOf s.heap.ram x).size + 8 ≤ x.2.len) {addr : Nat}
    (ha : (grantOf s.heap.ram x).Has addr) (grants : List Grant) :
    (⟨h, grants⟩ : Arena).byte addr = s.byte addr := by
  obtain ⟨hle, hlt⟩ := ha
  rw [grantOf] at hle hlt hfit
  dsimp only at hle hlt hfit
  rw [byte, byte, hram]
  exact hsame _ (by omega) (by omega)

/-- The grant of a used block fits into it. -/
theorem Inv.fits (hinv : s.Inv cs) {x : Nat × Cell Nat} (hx : x ∈ owned 0 cs) :
    (grantOf s.heap.ram x).size + 8 ≤ x.2.len := by
  obtain ⟨n, hn⟩ : ∃ n, x.2.owner = some n := Option.ne_none_iff_exists'.mp (mem_owned.mp hx).2
  have hfit := hinv.blocks.fits x hx n hn
  simpa [grantOf, hn] using hfit

theorem Inv.malloc {size : Nat} (hinv : s.Inv cs) (hstep : s.step (.mem_malloc size) = some s') :
    (∃ cs', s'.Inv cs') ∧ ∀ g ∈ s.grants, KeepsGrant s s' g := by
  rw [step, Option.map_eq_some_iff] at hstep
  obtain ⟨⟨p, h⟩, hmalloc, rfl⟩ := hstep
  by_cases hnone : size = 0 ∨ firstFit (blockSize size + 8) 0 cs = none
  · rw [hinv.blocks.mem_malloc_none hnone, Option.some.injEq, Prod.mk.injEq] at hmalloc
    obtain ⟨rfl, rfl⟩ := hmalloc
    exact ⟨⟨cs, hinv⟩, fun g hg => ⟨hg, fun _ _ => rfl⟩⟩
  · obtain ⟨hzero, hfirst⟩ := not_or.mp hnone
    obtain ⟨o, hfirst⟩ := Option.ne_none_iff_exists'.mp hfirst
    obtain ⟨pre, c, post, rfl, rfl, hfree, hfit⟩ := split_of_firstFit hfirst
    obtain ⟨k, hk, hram, hblocks, hbytes⟩ :=
      hinv.blocks.mem_malloc_some hzero hfirst hfree hfit
    rw [hk, Option.some.injEq, Prod.mk.injEq] at hmalloc
    obtain ⟨rfl, rfl⟩ := hmalloc
    have hgrants := hinv.grants
    have howned : owned 0 (pre ++ c :: post) =
        owned 0 pre ++ owned (extent pre + c.len) post := owned_cons_of_free pre hfree
    have hne : s.heap.ram + extent pre + 8 ≠ 0 := by omega
    rw [howned] at hgrants
    dsimp only
    rw [if_neg hne]
    refine ⟨⟨_, hblocks, ?_, hram ▸ hinv.aligned⟩, fun g hg =>
      ⟨List.mem_cons_of_mem _ hg, fun addr ha => ?_⟩⟩
    · have hnew : grantOf k.ram (extent pre, granted (blockSize size) c) =
          ⟨s.heap.ram + extent pre + 8, blockSize size⟩ := by
        rw [grantOf, granted, hram]
        split <;> rfl
      dsimp only
      rw [owned_carve pre post _ hfit, List.map_append, List.map_cons, hnew]
      refine (hgrants.cons _).trans ?_
      rw [hram, List.map_append]
      exact List.perm_middle.symm
    · obtain ⟨x, hx, rfl⟩ := List.mem_map.mp (hgrants.mem_iff.mp hg)
      exact byte_of_same hram (same_around hbytes hx) (hinv.fits (howned ▸ hx)) ha _

/-- A block in use, and the others. -/
theorem Inv.others (hinv : s.Inv (pre ++ c :: post)) (hc : ¬ c.Free) :
    s.grants.Perm (grantOf s.heap.ram (extent pre, c) ::
      (owned 0 pre ++ owned (extent pre + c.len) post).map (grantOf s.heap.ram)) := by
  have hgrants := hinv.grants
  rw [owned_cons_of_not_free pre hc, List.map_append, List.map_cons] at hgrants
  rw [List.map_append]
  exact hgrants.trans List.perm_middle

/-- The grants that start elsewhere are those of the other blocks. -/
theorem Inv.mem_others (hinv : s.Inv (pre ++ c :: post)) (hc : ¬ c.Free) {g : Grant}
    (hg : g ∈ s.grants) (hne : g.rmem ≠ s.heap.ram + extent pre + 8) :
    ∃ x ∈ owned 0 pre ++ owned (extent pre + c.len) post, g = grantOf s.heap.ram x ∧
      x ∈ owned 0 (pre ++ c :: post) := by
  rcases List.mem_cons.mp ((hinv.others hc).mem_iff.mp hg) with rfl | hg
  · exact absurd rfl hne
  · obtain ⟨x, hx, rfl⟩ := List.mem_map.mp hg
    refine ⟨x, hx, rfl, ?_⟩
    rw [owned_cons_of_not_free pre hc]
    exact (List.mem_append.mp hx).elim (fun h => by simp [h]) fun h => by simp [h]

/-- What is freed is taken out of the grants. -/
theorem filter_others (hpos : ∀ d ∈ pre ++ c :: post, 0 < d.len) (ram : Nat) :
    (grantOf ram (extent pre, c) :: (owned 0 pre ++ owned (extent pre + c.len) post).map
      (grantOf ram)).filter (·.rmem ≠ ram + extent pre + 8) =
        (owned 0 pre ++ owned (extent pre + c.len) post).map (grantOf ram) := by
  rw [List.filter_cons_of_neg (by simp [grantOf]), List.filter_eq_self]
  intro g hg
  obtain ⟨x, hx, rfl⟩ := List.mem_map.mp hg
  simpa using start_ne hpos hx

theorem Inv.pos (hinv : s.Inv cs) : ∀ d ∈ cs, 0 < d.len := hinv.blocks.pos

theorem Inv.free {rmem : Nat} (hinv : s.Inv cs) (hstep : s.step (.mem_free rmem) = some s') :
    (∃ cs', s'.Inv cs') ∧ ∀ g ∈ s.grants, g.rmem ≠ rmem → KeepsGrant s s' g := by
  rw [step, Option.ite_none_right_eq_some, Option.some.injEq] at hstep
  obtain ⟨hcond, rfl⟩ := hstep
  have hkept : ∀ g ∈ s.grants, g.rmem ≠ rmem → g ∈ s.grants.filter (·.rmem ≠ rmem) :=
    fun g hg hne => List.mem_filter.mpr ⟨hg, by simpa using hne⟩
  by_cases hmine : ∃ g ∈ s.grants, g.rmem = rmem
  · obtain ⟨g, hg, rfl⟩ := hmine
    obtain ⟨pre, c, post, rfl, hc, -, hrmem, -⟩ := hinv.block hg
    obtain ⟨cs', hblocks, hram, howned, hsame⟩ := hinv.blocks.mem_free
    rw [hrmem] at hkept ⊢
    refine ⟨⟨cs', hblocks, ?_, by rw [hram]; exact hinv.aligned⟩, fun g' hg' hne =>
      ⟨hkept g' hg' hne, fun addr ha => ?_⟩⟩
    · dsimp only
      rw [hram, howned, ← filter_others hinv.pos]
      exact (hinv.others hc).filter _
    · obtain ⟨x, hx, rfl, hx'⟩ := hinv.mem_others hc hg' hne
      exact byte_of_same hram (hsame x (howned ▸ hx)) (hinv.fits hx') ha _
  · have hnone : ∀ g ∈ s.grants, g.rmem ≠ rmem := fun g hg heq => hmine ⟨g, hg, heq⟩
    have hall : s.grants.filter (·.rmem ≠ rmem) = s.grants :=
      List.filter_eq_self.mpr fun g hg => by simpa using hnone g hg
    have hignored : s.heap.mem_free rmem = s.heap := by
      rw [mem_free]
      by_cases hzero : rmem = 0
      · rw [if_pos hzero]
      · rw [if_neg hzero, if_pos ((hcond.resolve_left hzero).resolve_right hmine)]
    rw [hall, hignored]
    exact ⟨⟨cs, hinv⟩, fun g hg _ => ⟨hg, fun _ _ => rfl⟩⟩

/-- The grant of a block that is trimmed to `n` bytes. -/
def retrim (rmem n : Nat) (g : Grant) : Grant := if g.rmem = rmem then ⟨rmem, n⟩ else g

theorem map_others (hpos : ∀ d ∈ pre ++ c :: post, 0 < d.len) (ram n : Nat) :
    (grantOf ram (extent pre, c) :: (owned 0 pre ++ owned (extent pre + c.len) post).map
      (grantOf ram)).map (retrim (ram + extent pre + 8) n) =
        ⟨ram + extent pre + 8, n⟩ ::
          (owned 0 pre ++ owned (extent pre + c.len) post).map (grantOf ram) := by
  rw [List.map_cons, List.map_map, retrim, if_pos (by simp [grantOf]), List.cons.injEq]
  refine ⟨rfl, List.map_congr_left fun x hx => ?_⟩
  rw [Function.comp_apply, retrim, if_neg (start_ne hpos hx)]

theorem Inv.trim {rmem newsize : Nat} (hinv : s.Inv cs)
    (hstep : s.step (.mem_trim rmem newsize) = some s') :
    (∃ cs', s'.Inv cs') ∧ (∀ g ∈ s.grants, g.rmem ≠ rmem → KeepsGrant s s' g) ∧
      ∀ g ∈ s.grants, g.rmem = rmem → ∃ g' ∈ s'.grants, g'.rmem = rmem ∧
        (g' = g ∨ g'.size = blockSize newsize) ∧
          ∀ addr, g.Has addr → addr < rmem + blockSize newsize → s'.byte addr = s.byte addr := by
  rw [step, Option.ite_none_right_eq_some] at hstep
  obtain ⟨⟨g, hg, rfl⟩, hstep⟩ := hstep
  obtain ⟨pre, c, post, rfl, hc, hsize, hrmem, hfit⟩ := hinv.block hg
  rw [hrmem] at hstep ⊢
  by_cases hlong : c.len < blockSize newsize + 8
  · rw [hinv.blocks.mem_trim_none hlong] at hstep
    obtain rfl := Option.some.inj hstep
    exact ⟨⟨_, hinv⟩, fun g' hg' _ => ⟨hg', fun _ _ => rfl⟩, fun g' hg' heq =>
      ⟨g', hg', heq, .inl rfl, fun _ _ _ => rfl⟩⟩
  · obtain ⟨k, c', cs', htrim, h⟩ := hinv.blocks.mem_trim_some hc (Nat.le_of_not_lt hlong)
    rw [htrim] at hstep
    have hne : s.heap.ram + extent pre + 8 ≠ 0 := by omega
    dsimp only at hstep
    rw [if_neg hne] at hstep
    obtain rfl := Option.some.inj hstep
    refine ⟨⟨cs', h.blocks, ?_, by rw [h.ram]; exact hinv.aligned⟩, fun g' hg' hne' => ?_,
      fun g' hg' heq => ?_⟩
    · have hperm := (hinv.others hc).map (retrim (s.heap.ram + extent pre + 8) (blockSize newsize))
      rw [map_others hinv.pos] at hperm
      have hnew : grantOf s.heap.ram (extent pre, c') =
          ⟨s.heap.ram + extent pre + 8, blockSize newsize⟩ := by
        rw [grantOf, h.owner]
        rfl
      dsimp only
      rw [h.ram, h.owned_eq, List.map_append, List.map_cons, hnew]
      refine hperm.trans ?_
      rw [List.map_append]
      exact List.perm_middle.symm
    · obtain ⟨x, hx, rfl, hx'⟩ := hinv.mem_others hc hg' hne'
      refine ⟨List.mem_map.mpr ⟨_, hg', if_neg hne'⟩, fun addr ha => ?_⟩
      exact byte_of_same h.ram (h.same x hx) (hinv.fits hx') ha _
    · refine ⟨⟨s.heap.ram + extent pre + 8, blockSize newsize⟩,
        List.mem_map.mpr ⟨g', hg', if_pos heq⟩, rfl, .inr rfl, fun addr ha hlt => ?_⟩
      rw [Grant.Has, heq] at ha
      rw [byte, byte, h.ram]
      exact h.kept _ (by omega) (by omega)

/-- A byte inside a used block is in no header. -/
theorem blocks_store {h : MemHeap} (hb : h.Blocks (pre ++ c :: post)) {a : Nat}
    (hle : extent pre + 8 ≤ a) (hlt : a < extent pre + c.len) (b : UInt8) :
    MemHeap.Blocks { h with bytes := Function.update h.bytes a b } (pre ++ c :: post) := by
  have hbound := hb.bound
  obtain ⟨q, hseam, hq⟩ := Lays.seam [c] hb.toLays
  have hother : ∀ x, x ≠ a → Function.update h.bytes a b x = h.bytes x :=
    fun x hx => Function.update_of_ne hx b h.bytes
  have hlays : MemHeap.Lays { h with bytes := Function.update h.bytes a b } (pre ++ c :: post) := by
    refine Lays.replace [c] [c] hb.toLays (fun x hx => hother x (by omega)) ?_ rfl ?_
      (q := q) ?_ hq fun x hx => hother x ?_
    · refine laid_cons.mpr ⟨?_, trivial⟩
      rw [hdr_congr fun x _ hx => hother x (by omega), hb.hdr_eq]
    · simpa using hbound.2
    · rw [← hseam]
      exact hdr_congr fun x hx _ => hother x (by simp only [extent_cons, extent_nil] at hx; omega)
    · simp only [extent_cons, extent_nil] at hx
      omega
  exact ⟨hlays, hb.merged, hb.fits, hb.lowest⟩

theorem Inv.store {addr : Nat} {b : UInt8} (hinv : s.Inv cs)
    (hstep : s.step (.store addr b) = some s') :
    (∃ cs', s'.Inv cs') ∧ s'.grants = s.grants ∧
      ∀ g ∈ s.grants, ∀ addr' ≠ addr, g.Has addr' → s'.byte addr' = s.byte addr' := by
  rw [step, Option.ite_none_right_eq_some, Option.some.injEq] at hstep
  obtain ⟨⟨g, hg, hle, hlt⟩, rfl⟩ := hstep
  obtain ⟨pre, c, post, rfl, -, -, hrmem, hfit⟩ := hinv.block hg
  refine ⟨⟨_, blocks_store hinv.blocks (by omega) (by omega) b, hinv.grants, hinv.aligned⟩, rfl,
    fun g' hg' addr' hne ha => ?_⟩
  obtain ⟨pre', c', post', -, -, -, hrmem', -⟩ := hinv.block hg'
  rw [Grant.Has] at ha
  have hoff : addr' - s.heap.ram ≠ addr - s.heap.ram := by omega
  exact Function.update_of_ne hoff b s.heap.bytes

/-! ## Runs -/

theorem exists_inv_boot (ram_heap : Nat) (bytes : Nat → UInt8) :
    (boot ram_heap bytes).Inv [⟨16000, none⟩] where
  blocks := blocks_mem_init _ ram_heap
  grants := by simp [boot, owned]
  aligned := by
    show LWIP_MEM_ALIGN_SIZE ram_heap % 4 = 0
    rw [LWIP_MEM_ALIGN_SIZE, MEM_ALIGNMENT]
    omega

theorem exists_inv_step {ev : MemEvent} (hinv : ∃ cs, s.Inv cs) (hstep : s.step ev = some s') :
    ∃ cs', s'.Inv cs' := by
  obtain ⟨cs, hinv⟩ := hinv
  cases ev with
  | mem_malloc size => exact (hinv.malloc hstep).1
  | mem_free rmem => exact (hinv.free hstep).1
  | mem_trim rmem newsize => exact (hinv.trim hstep).1
  | store addr b => exact (hinv.store hstep).1

variable {ram_heap : Nat} {bytes : Nat → UInt8} {evs : List MemEvent}

theorem inv_of_run (hrun : run step (boot ram_heap bytes) evs = some s) : ∃ cs, s.Inv cs :=
  run_invariant (fun _ _ _ hinv hk => exists_inv_step hinv hk)
    ⟨_, exists_inv_boot ram_heap bytes⟩ hrun

/-- Grants of blocks lie apart and inside. -/
theorem Inv.apart (hinv : s.Inv cs) : s.grants.Pairwise Grant.Apart := by
  have hsorted : (owned 0 cs).Pairwise fun x y => x.1 + x.2.len ≤ y.1 :=
    (placed_pairwise 0 cs).filter _
  refine (hinv.grants.pairwise_iff fun {_ _} h => Or.symm h).mpr (List.pairwise_map.mpr ?_)
  refine hsorted.imp_of_mem fun {x y} hx _ hle => .inl ?_
  have hfit := hinv.fits hx
  rw [grantOf] at hfit ⊢
  dsimp only [grantOf] at hfit ⊢
  omega

/-- **What is handed out.**  In every run: the memory of any two grants lies apart, and all of it
inside the heap, at an aligned address. -/
theorem run_apart (hrun : run step (boot ram_heap bytes) evs = some s) :
    s.grants.Pairwise Grant.Apart ∧
      ∀ g ∈ s.grants, s.heap.ram + SIZEOF_STRUCT_MEM ≤ g.rmem ∧
        g.rmem + g.size ≤ s.heap.ram + MEM_SIZE_ALIGNED ∧ g.rmem % MEM_ALIGNMENT = 0 := by
  obtain ⟨cs, hinv⟩ := inv_of_run hrun
  refine ⟨hinv.apart, fun g hg => ?_⟩
  obtain ⟨pre, c, post, rfl, -, -, hrmem, hfit⟩ := hinv.block hg
  have hbound := hinv.blocks.bound
  have halign := hinv.aligned
  have hpre : 4 ∣ extent pre := dvd_extent fun d hd =>
    Nat.dvd_of_mod_eq_zero (hinv.blocks.sizes d (by simp [hd])).2
  rw [SIZEOF_STRUCT_MEM, MEM_SIZE_ALIGNED, MEM_ALIGNMENT]
  omega

/-- A heap to start from, and what some events make of it. -/
def fresh : Arena := boot 0x20000001 fun _ => 0

def behind (evs : List MemEvent) : Arena := (run step fresh evs).getD fresh

theorem run_behind {evs : List MemEvent} (h : (run step fresh evs).isSome = true) :
    run step fresh evs = some (behind evs) := by
  rw [behind, Option.getD_of_ne_none (Option.isSome_iff_ne_none.mp h)]

/-- Two requests. -/
def two : List MemEvent := [.mem_malloc 100, .mem_malloc 20]

theorem run_apart_two :
    (behind two).grants.Pairwise Grant.Apart ∧
      ∀ g ∈ (behind two).grants, (behind two).heap.ram + SIZEOF_STRUCT_MEM ≤ g.rmem ∧
        g.rmem + g.size ≤ (behind two).heap.ram + MEM_SIZE_ALIGNED ∧ g.rmem % MEM_ALIGNMENT = 0 :=
  run_apart (run_behind (by decide +kernel))

example : (behind two).grants = [⟨0x20000078, 20⟩, ⟨0x2000000c, 100⟩] := by decide +kernel

/-- The event does not touch the byte at `addr` of the memory at `rmem`: that memory is neither
freed nor trimmed so far, and nothing is stored there. -/
def Spares (rmem addr : Nat) : MemEvent → Prop
  | .mem_malloc _ => True
  | .mem_free r => r ≠ rmem
  | .mem_trim r newsize => r = rmem → addr < rmem + blockSize newsize
  | .store a _ => a ≠ addr

instance (rmem addr : Nat) : (ev : MemEvent) → Decidable (Spares rmem addr ev)
  | .mem_malloc _ => .isTrue trivial
  | .mem_free r => inferInstanceAs (Decidable (r ≠ rmem))
  | .mem_trim _ _ => inferInstanceAs (Decidable (_ → _))
  | .store a _ => inferInstanceAs (Decidable (a ≠ addr))

/-- The byte at `addr` belongs to the memory at `rmem`. -/
def Holds (s : Arena) (rmem addr : Nat) : Prop := ∃ g ∈ s.grants, g.rmem = rmem ∧ g.Has addr

theorem holds_step {ev : MemEvent} {rmem addr : Nat} (hinv : s.Inv cs)
    (hheld : s.Holds rmem addr) (hspares : Spares rmem addr ev) (hstep : s.step ev = some s') :
    s'.Holds rmem addr ∧ s'.byte addr = s.byte addr := by
  obtain ⟨g, hg, rfl, ha⟩ := hheld
  cases ev with
  | mem_malloc size =>
      obtain ⟨hg', hbyte⟩ := (hinv.malloc hstep).2 g hg
      exact ⟨⟨g, hg', rfl, ha⟩, hbyte addr ha⟩
  | mem_free r =>
      obtain ⟨hg', hbyte⟩ := (hinv.free hstep).2 g hg (Ne.symm hspares)
      exact ⟨⟨g, hg', rfl, ha⟩, hbyte addr ha⟩
  | mem_trim r newsize =>
      by_cases heq : g.rmem = r
      · have hlt := hspares heq.symm
        obtain ⟨g', hg', hrmem, hor, hbyte⟩ := (hinv.trim hstep).2.2 g hg heq
        refine ⟨⟨g', hg', hrmem.trans heq.symm, ?_⟩, hbyte addr ha (heq ▸ hlt)⟩
        rcases hor with rfl | hsize
        · exact ha
        · have hle := ha.1
          rw [Grant.Has, hsize]
          omega
      · obtain ⟨hg', hbyte⟩ := (hinv.trim hstep).2.1 g hg heq
        exact ⟨⟨g, hg', rfl, ha⟩, hbyte addr ha⟩
  | store a b =>
      obtain ⟨-, hgrants, hbyte⟩ := hinv.store hstep
      exact ⟨⟨g, hgrants ▸ hg, rfl, ha⟩, hbyte g hg addr (Ne.symm hspares) ha⟩

/-- **What is written stays.**  From any state of any run on, as long as memory is neither freed
nor trimmed below a byte of it, that byte is what was stored there last, whatever the other
clients ask for, free, trim and write. -/
theorem run_kept {evs' : List MemEvent} {t : Arena}
    (hrun : run step (boot ram_heap bytes) evs = some s) (hrun' : run step s evs' = some t)
    {rmem addr : Nat} (hheld : s.Holds rmem addr) (hspares : ∀ ev ∈ evs', Spares rmem addr ev) :
    t.Holds rmem addr ∧ t.byte addr = s.byte addr := by
  have hby : RunBy step (fun _ ev => Spares rmem addr ev) s evs' t :=
    ⟨hrun', (steps_iff_forall_mem hrun').mpr hspares⟩
  have hkeep := hby.invariant
    (I := fun u => (∃ cs, u.Inv cs) ∧ u.Holds rmem addr ∧ u.byte addr = s.byte addr)
    (fun u ev u' ⟨hinv, hheld, hbyte⟩ hspares hstep => by
      obtain ⟨cs, hcs⟩ := hinv
      obtain ⟨hheld', hbyte'⟩ := holds_step hcs hheld hspares hstep
      exact ⟨exists_inv_step ⟨cs, hcs⟩ hstep, hheld', hbyte'.trans hbyte⟩)
    ⟨inv_of_run hrun, hheld, rfl⟩
  exact hkeep.2

/-- The first block is written, then trimmed while the second one is given back. -/
def written : List MemEvent := two ++ [.store 0x20000010 7]

def busy : List MemEvent :=
  [.mem_free 0x20000078, .mem_malloc 50, .mem_trim 0x2000000c 40, .mem_malloc 16]

theorem run_kept_busy :
    ((run step (behind written) busy).getD fresh).Holds 0x2000000c 0x20000010 ∧
      ((run step (behind written) busy).getD fresh).byte 0x20000010 =
        (behind written).byte 0x20000010 := by
  obtain ⟨t, ht⟩ : ∃ t, run step (behind written) busy = some t :=
    Option.isSome_iff_exists.mp (by decide +kernel)
  rw [ht, Option.getD_some]
  exact run_kept (run_behind (by decide +kernel)) ht ⟨⟨0x2000000c, 100⟩, by decide +kernel⟩
    (by decide)

/-! ## First fit -/

/-- None of the `n` bytes from offset `p` on belongs to memory handed out or to its header. -/
def Vacant (s : Arena) (p n : Nat) : Prop :=
  p + n ≤ MEM_SIZE_ALIGNED ∧ ∀ g ∈ s.grants,
    let mem := g.rmem - SIZEOF_STRUCT_MEM - s.heap.ram
    p + n ≤ mem ∨ s.heap.next mem ≤ p

theorem Inv.vacant_iff (hinv : s.Inv cs) (p n : Nat) : s.Vacant p n ↔ Gap 0 cs p n := by
  have hnext : ∀ x ∈ placed 0 cs, s.heap.next x.1 = x.1 + x.2.len := by
    rintro ⟨o, c⟩ hx
    obtain ⟨pre, post, rfl, rfl⟩ := mem_placed.mp hx
    rw [Nat.zero_add]
    exact hinv.blocks.next_eq
  have hmem : ∀ x : Nat × Cell Nat,
      (grantOf s.heap.ram x).rmem - SIZEOF_STRUCT_MEM - s.heap.ram = x.1 := by
    intro x
    rw [grantOf, SIZEOF_STRUCT_MEM]
    dsimp only
    omega
  rw [Vacant, Gap, hinv.blocks.extent_eq, MEM_SIZE_ALIGNED]
  simp only [Nat.zero_le, true_and, Nat.zero_add]
  refine and_congr_right fun _ => ⟨fun h x hx hused => ?_, fun h g hg => ?_⟩
  · have hg := h _ (hinv.grants.mem_iff.mpr
      (List.mem_map.mpr ⟨x, mem_owned.mpr ⟨hx, hused⟩, rfl⟩))
    rwa [hmem, hnext x hx] at hg
  · obtain ⟨x, hx, rfl⟩ := List.mem_map.mp (hinv.grants.mem_iff.mp hg)
    obtain ⟨hx, hused⟩ := mem_owned.mp hx
    rw [hmem, hnext x hx]
    exact h x hx hused

/-- **First fit.**  In every run, `mem_malloc` comes to an end; it answers with the lowest vacant
place for the block and its header, and refuses only zero bytes and what there is no such place
for. -/
theorem run_first_fit (hrun : run step (boot ram_heap bytes) evs = some s) (size : Nat) :
    (s.heap.mem_malloc size = some (0, s.heap) ∧
        (size = 0 ∨ ∀ p, ¬ s.Vacant p (blockSize size + SIZEOF_STRUCT_MEM))) ∨
      ∃ p h, s.heap.mem_malloc size = some (s.heap.ram + p + SIZEOF_STRUCT_MEM, h) ∧ size ≠ 0 ∧
        s.Vacant p (blockSize size + SIZEOF_STRUCT_MEM) ∧
        ∀ q < p, ¬ s.Vacant q (blockSize size + SIZEOF_STRUCT_MEM) := by
  obtain ⟨cs, hinv⟩ := inv_of_run hrun
  have hmerged := hinv.blocks.merged
  have hpos : 0 < blockSize size + 8 := by omega
  simp only [hinv.vacant_iff, SIZEOF_STRUCT_MEM]
  by_cases hzero : size = 0
  · exact .inl ⟨hinv.blocks.mem_malloc_none (.inl hzero), .inl hzero⟩
  · cases hfirst : firstFit (blockSize size + 8) 0 cs with
    | none =>
        exact .inl ⟨hinv.blocks.mem_malloc_none (.inr hfirst),
          .inr ((firstFit_eq_none_iff hmerged hpos).mp hfirst)⟩
    | some p =>
        obtain ⟨hgap, hleast⟩ := (firstFit_eq_some_iff hmerged hpos).mp hfirst
        obtain ⟨pre, c, post, rfl, rfl, hfree, hfit⟩ := split_of_firstFit hfirst
        obtain ⟨k, hk, -⟩ := hinv.blocks.mem_malloc_some hzero hfirst hfree hfit
        exact .inr ⟨extent pre, k, hk, hzero, hgap, hleast⟩

theorem run_first_fit_hole :
    let s := behind (two ++ [.mem_free 0x2000000c])
    (s.heap.mem_malloc 60 = some (0, s.heap) ∧
        (60 = 0 ∨ ∀ p, ¬ s.Vacant p (blockSize 60 + SIZEOF_STRUCT_MEM))) ∨
      ∃ p h, s.heap.mem_malloc 60 = some (s.heap.ram + p + SIZEOF_STRUCT_MEM, h) ∧ 60 ≠ 0 ∧
        s.Vacant p (blockSize 60 + SIZEOF_STRUCT_MEM) ∧
        ∀ q < p, ¬ s.Vacant q (blockSize 60 + SIZEOF_STRUCT_MEM) :=
  run_first_fit (run_behind (by decide +kernel)) 60

example :
    ((behind (two ++ [.mem_free 0x2000000c])).heap.mem_malloc 60).map Prod.fst =
      some 0x2000000c := by
  decide +kernel

/-- **Nothing is lost.**  In every run, when all memory has been given back, the heap is one free
block again, as `mem_init` left it. -/
theorem run_all_free (hrun : run step (boot ram_heap bytes) evs = some s) (hall : s.grants = []) :
    s.heap.next 0 = MEM_SIZE_ALIGNED ∧ s.heap.prev 0 = 0 ∧ s.heap.used 0 = 0 ∧
      s.heap.lfree = 0 := by
  obtain ⟨cs, hinv⟩ := inv_of_run hrun
  have hnone : owned 0 cs = [] := by
    have hperm := hinv.grants
    rw [hall] at hperm
    exact List.map_eq_nil_iff.mp hperm.nil_eq.symm
  have hfree : ∀ x ∈ placed 0 cs, x.2.Free := fun x hx => by
    by_contra hused
    have hx' := mem_owned.mpr ⟨hx, hused⟩
    rw [hnone] at hx'
    exact List.not_mem_nil hx'
  have htotal := hinv.blocks.extent_eq
  cases cs with
  | nil => simp at htotal
  | cons c cs =>
      have hc := hfree (0, c) (by simp)
      have hlast : cs = [] := by
        cases cs with
        | nil => rfl
        | cons d cs =>
            exact absurd (hfree (0 + c.len, d) (by simp))
              ((merged_cons.mp hinv.blocks.merged).2 hc d rfl)
      subst hlast
      rw [extent_cons, extent_nil, Nat.add_zero] at htotal
      have hlaid := hinv.blocks.laid
      have hhdr := (laid_cons.mp hlaid).1
      have hlfree := hinv.blocks.lowest.le (0, c) (by simp) hc
      refine ⟨?_, ?_, (used_eq_zero_iff_of_laid hlaid).mpr hc, Nat.le_zero.mp hlfree⟩
      · rw [next_eq_of_laid hlaid, Nat.zero_add, htotal, MEM_SIZE_ALIGNED]
      · rw [prev_eq_hdr, hhdr]

theorem run_all_free_two :
    let s := behind (two ++ [.mem_free 0x2000000c, .mem_free 0x20000078])
    s.heap.next 0 = MEM_SIZE_ALIGNED ∧ s.heap.prev 0 = 0 ∧ s.heap.used 0 = 0 ∧
      s.heap.lfree = 0 :=
  run_all_free (run_behind (by decide +kernel)) (by decide +kernel)

/-- The block that is handed out is the first part of what was carved. -/
theorem exists_carve (n : Nat) (hfit : n + 8 ≤ c.len) :
    ∃ rest, carve n c = granted n c :: rest ∧ n + 8 ≤ (granted n c).len := by
  rw [carve, granted]
  split
  · exact ⟨_, rfl, Nat.le_refl _⟩
  · exact ⟨[], rfl, hfit⟩

/-- **`mem_calloc`** asks for the product as a `mem_size_t`, and clears all of it: in every run
what it clears is its own block exactly when the product is at most 65532. -/
theorem run_calloc (hrun : run step (boot ram_heap bytes) evs = some s) {count size p : Nat}
    {h : MemHeap} (hcalloc : s.heap.mem_calloc count size = some (p, h)) (hp : p ≠ 0) :
    ∃ k, s.heap.mem_malloc (memSize (count * size)) = some (p, k) ∧
      h = k.clear p (count * size) ∧
      (p + count * size ≤ k.ram + k.next (p - SIZEOF_STRUCT_MEM - k.ram) ↔
        count * size ≤ 65532) := by
  obtain ⟨cs, hinv⟩ := inv_of_run hrun
  rw [mem_calloc, Option.map_eq_some_iff] at hcalloc
  obtain ⟨⟨r, k⟩, hmalloc, heq⟩ := hcalloc
  obtain ⟨rfl, rfl⟩ := Prod.mk.inj heq
  refine ⟨k, hmalloc, if_pos hp, ?_⟩
  generalize count * size = n at *
  by_cases hnone : memSize n = 0 ∨ firstFit (blockSize (memSize n) + 8) 0 cs = none
  · rw [hinv.blocks.mem_malloc_none hnone, Option.some.injEq, Prod.mk.injEq] at hmalloc
    exact absurd hmalloc.1.symm hp
  · obtain ⟨hzero, hfirst⟩ := not_or.mp hnone
    obtain ⟨o, hfirst⟩ := Option.ne_none_iff_exists'.mp hfirst
    obtain ⟨pre, c, post, rfl, rfl, hfree, hfit⟩ := split_of_firstFit hfirst
    obtain ⟨k', hk', hram, hblocks, -⟩ := hinv.blocks.mem_malloc_some hzero hfirst hfree hfit
    rw [hk', Option.some.injEq, Prod.mk.injEq] at hmalloc
    obtain ⟨rfl, rfl⟩ := hmalloc
    obtain ⟨rest, hrest, hlen⟩ := exists_carve (blockSize (memSize n)) hfit
    rw [hrest] at hblocks
    have hlays : k'.Lays (pre ++ granted (blockSize (memSize n)) c :: (rest ++ post)) :=
      hblocks.toLays
    have hbound := hlays.bound
    have hoff : s.heap.ram + extent pre + 8 - SIZEOF_STRUCT_MEM - k'.ram = extent pre := by
      rw [hram, SIZEOF_STRUCT_MEM]
      omega
    rw [hoff, hlays.next_eq, hram]
    rw [blockSize_eq, memSize] at hlen hbound ⊢
    rw [memSize] at hzero
    omega

theorem run_calloc_wrap :
    ∃ h, fresh.heap.mem_calloc 257 256 = some (0x2000000c, h) ∧
      ∃ k, fresh.heap.mem_malloc (memSize (257 * 256)) = some (0x2000000c, k) ∧
        h = k.clear 0x2000000c (257 * 256) ∧
        (0x2000000c + 257 * 256 ≤ k.ram + k.next (0x2000000c - SIZEOF_STRUCT_MEM - k.ram) ↔
          257 * 256 ≤ 65532) := by
  obtain ⟨⟨p, h⟩, hcalloc⟩ : ∃ r, fresh.heap.mem_calloc 257 256 = some r :=
    Option.isSome_iff_exists.mp (by decide +kernel)
  have hp : (fresh.heap.mem_calloc 257 256).map Prod.fst = some 0x2000000c := by decide +kernel
  rw [hcalloc] at hp
  obtain rfl : p = 0x2000000c := Option.some.inj hp
  have hstart : run step fresh [] = some fresh := rfl
  exact ⟨h, hcalloc, run_calloc hstart hcalloc (by decide)⟩

end Arena

end NetCamera.Lwip
