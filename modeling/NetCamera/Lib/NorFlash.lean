/-!
# NorFlash

NOR flash cells: erasing a sector sets every bit of its words, programming a
word can only clear bits.  A word that is blank takes the programmed value
exactly, so a writer has to erase first; `programN` is the state after the
first `k` words of a source were programmed at a fixed stride, which is both
the loop state of such a writer and what a power cut leaves behind.

Sectors are given by a membership test, addresses are plain numbers and the
word width is arbitrary.  A `Layout` is a map of contiguous sectors by their
start addresses, and `Layout.sectorOf` looks an address up in it.
-/

namespace NorFlash

variable {w : Nat}

/-- The word at each address. -/
abbrev Cells (w : Nat) := Nat → BitVec w

/-- An erased word. -/
def blank : BitVec w := BitVec.allOnes w

/-- Erase the sector that `sector` describes. -/
def erase (sector : Nat → Bool) (f : Cells w) : Cells w :=
  fun a => if sector a then blank else f a

/-- Program one word: bits can only be cleared. -/
def program (addr : Nat) (v : BitVec w) (f : Cells w) : Cells w :=
  fun a => if a = addr then f a &&& v else f a

/-- Program the first `k` words of `src` from `base` on, `stride` apart. -/
def programN (base stride : Nat) (src : Nat → BitVec w) : Nat → Cells w → Cells w
  | 0, f => f
  | k + 1, f => program (base + stride * k) (src k) (programN base stride src k f)

/-! ## Single operations -/

@[simp] theorem erase_of_mem {sector : Nat → Bool} {a : Nat} (h : sector a = true)
    (f : Cells w) : erase sector f a = blank := by
  simp [erase, h]

@[simp] theorem erase_of_not_mem {sector : Nat → Bool} {a : Nat} (h : sector a = false)
    (f : Cells w) : erase sector f a = f a := by
  simp [erase, h]

/-- A blank word takes the programmed value. -/
theorem program_self {f : Cells w} {a : Nat} (h : f a = blank) (v : BitVec w) :
    program a v f a = v := by
  rw [program, if_pos rfl, h, blank, BitVec.allOnes_and]

@[simp] theorem program_other {f : Cells w} {a x : Nat} (h : x ≠ a) (v : BitVec w) :
    program a v f x = f x := by
  rw [program, if_neg h]

/-! ## Programming a run of words -/

section run

variable {base stride : Nat} {src : Nat → BitVec w} {f : Cells w}

/-- Words off the programmed run are untouched. -/
theorem programN_other {a k : Nat} (h : ∀ i < k, a ≠ base + stride * i) :
    programN base stride src k f a = f a := by
  induction k with
  | zero => rfl
  | succ k ih =>
      rw [programN, program_other (h k (Nat.lt_succ_self k))]
      exact ih fun i hi => h i (Nat.lt_succ_of_lt hi)

/-- Words of the run that are not yet reached are untouched. -/
theorem programN_ahead (hs : 0 < stride) {i k : Nat} (h : k ≤ i) :
    programN base stride src k f (base + stride * i) = f (base + stride * i) := by
  refine programN_other fun j hj heq => ?_
  have hij : stride * i = stride * j := Nat.add_left_cancel heq
  have : i = j := Nat.eq_of_mul_eq_mul_left hs hij
  omega

/-- Words of the run that were blank hold the source word once reached. -/
theorem programN_done (hs : 0 < stride) {i k : Nat} (h : i < k)
    (hf : f (base + stride * i) = blank) :
    programN base stride src k f (base + stride * i) = src i := by
  induction k with
  | zero => omega
  | succ k ih =>
      by_cases hik : i = k
      · subst hik
        rw [programN, program_self]
        rw [programN_ahead hs (Nat.le_refl i), hf]
      · have hne : base + stride * i ≠ base + stride * k := fun heq =>
          hik (Nat.eq_of_mul_eq_mul_left hs (Nat.add_left_cancel heq))
        rw [programN, program_other hne]
        exact ih (by omega)

end run

/-! ## Sector maps -/

/-- Contiguous sectors: their start addresses in ascending order and the end of
the last one. -/
structure Layout where
  starts : List Nat
  fin : Nat
  sorted : (starts ++ [fin]).Pairwise (· < ·)
  nonempty : 0 < starts.length

namespace Layout

variable (L : Layout)

/-- Where sector `s` starts; one past the last sector, where it ends. -/
def bound (s : Nat) : Nat := (L.starts ++ [L.fin]).getD s 0

/-- The address lies in sector `s`. -/
def mem (s a : Nat) : Bool := L.bound s ≤ a && a < L.bound (s + 1)

/-- The sector of an address: the first one whose successor starts behind it. -/
def sectorOf (a : Nat) : Nat := (L.starts.drop 1).findIdx fun b => a < b

theorem bound_eq_getElem {s : Nat} (h : s < (L.starts ++ [L.fin]).length) :
    L.bound s = (L.starts ++ [L.fin])[s] := by
  rw [bound, List.getD_eq_getElem?_getD, List.getElem?_eq_getElem h, Option.getD_some]

theorem bound_of_lt {s : Nat} (h : s < L.starts.length) : L.bound s = L.starts[s] := by
  rw [L.bound_eq_getElem (by simp; omega), List.getElem_append_left h]

theorem bound_length : L.bound L.starts.length = L.fin := by
  rw [L.bound_eq_getElem (by simp), List.getElem_append_right (Nat.le_refl _)]
  simp

/-- The boundaries ascend. -/
theorem bound_lt {s t : Nat} (h : s < t) (ht : t ≤ L.starts.length) : L.bound s < L.bound t := by
  rw [L.bound_eq_getElem (by simp; omega), L.bound_eq_getElem (by simp; omega)]
  exact List.pairwise_iff_getElem.mp L.sorted s t (by simp; omega) (by simp; omega) h

/-- An address of the array lies in the sector it is looked up to. -/
theorem mem_sectorOf {a : Nat} (h0 : L.bound 0 ≤ a) (h1 : a < L.fin) :
    L.mem (L.sectorOf a) a = true := by
  have hlen : (L.starts.drop 1).length = L.starts.length - 1 := List.length_drop
  have hpos := L.nonempty
  have hlow : L.bound (L.sectorOf a) ≤ a := by
    cases hs : L.sectorOf a with
    | zero => exact h0
    | succ k =>
        have hk : k < L.sectorOf a := by omega
        have hle : L.sectorOf a ≤ (L.starts.drop 1).length := List.findIdx_le_length
        have hnot := List.not_of_lt_findIdx hk
        rw [L.bound_of_lt (by omega)]
        simpa using hnot
  have hhigh : a < L.bound (L.sectorOf a + 1) := by
    by_cases hlt : L.sectorOf a < (L.starts.drop 1).length
    · have hget : a < (L.starts.drop 1)[L.sectorOf a] :=
        of_decide_eq_true (List.findIdx_getElem (w := hlt))
      rw [List.getElem_drop] at hget
      rw [L.bound_of_lt (by omega)]
      simpa [Nat.add_comm 1] using hget
    · have hle : L.sectorOf a ≤ (L.starts.drop 1).length := List.findIdx_le_length
      have heq : L.sectorOf a + 1 = L.starts.length := by omega
      rw [heq, L.bound_length]
      exact h1
  simp [mem, hlow, hhigh]

/-- Sectors do not overlap: an address is looked up to the sector it lies in. -/
theorem sectorOf_eq_of_mem {s a : Nat} (hs : s < L.starts.length) (h : L.mem s a = true) :
    L.sectorOf a = s := by
  simp only [mem, Bool.and_eq_true, decide_eq_true_eq] at h
  have hbelow : ∀ j, j < s → ¬ a < L.bound (j + 1) := by
    intro j hj
    by_cases hjs : j + 1 = s
    · rw [hjs]; omega
    · have := L.bound_lt (s := j + 1) (t := s) (by omega) (by omega)
      omega
  by_cases hlast : s + 1 = L.starts.length
  · rw [sectorOf, List.findIdx_eq_length.mpr]
    · rw [List.length_drop]; omega
    · intro b hb
      obtain ⟨j, hj, rfl⟩ := List.mem_iff_getElem.mp hb
      rw [List.length_drop] at hj
      have hnot := hbelow j (by omega)
      rw [L.bound_of_lt (by omega)] at hnot
      rw [List.getElem_drop]
      simpa [Nat.add_comm 1 j] using hnot
  · have hlt : s < (L.starts.drop 1).length := by rw [List.length_drop]; omega
    rw [sectorOf, List.findIdx_eq hlt]
    refine ⟨?_, fun j hj => ?_⟩
    · have hb := h.2
      rw [L.bound_of_lt (by omega)] at hb
      rw [List.getElem_drop]
      simpa [Nat.add_comm 1 s] using hb
    · have hnot := hbelow j hj
      rw [L.bound_of_lt (by omega)] at hnot
      rw [List.getElem_drop]
      simpa [Nat.add_comm 1 j] using hnot

/-- Both addresses lie in one sector. -/
def Together (x y : Nat) : Prop := ∃ s < L.starts.length, L.mem s x = true ∧ L.mem s y = true

theorem sectorOf_lt (a : Nat) : L.sectorOf a < L.starts.length := by
  have hle : L.sectorOf a ≤ (L.starts.drop 1).length := List.findIdx_le_length
  have hpos := L.nonempty
  rw [List.length_drop] at hle
  omega

/-- The sector of an address of the array is the one it is looked up to. -/
theorem together_iff {x y : Nat} (h0 : L.bound 0 ≤ x) (h1 : x < L.fin) :
    L.Together x y ↔ L.mem (L.sectorOf x) y = true := by
  constructor
  · rintro ⟨s, hs, hx, hy⟩
    rwa [L.sectorOf_eq_of_mem hs hx]
  · intro hy
    exact ⟨L.sectorOf x, L.sectorOf_lt x, L.mem_sectorOf h0 h1, hy⟩

end Layout

end NorFlash
