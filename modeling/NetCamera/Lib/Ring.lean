import Mathlib.Data.List.Basic

/-!
# Ring

Circular buffers.

A buffer of `size` cells is used in a circle: an index that has come to the end starts again at
the first cell (`next`).  `contents cells size out n` are the `n` cells from index `out` on, the
oldest first.  What a put at the far end and a take at the near end do to that list
(`contents_put`, `contents_take`) is all a queue needs to know of the indices.

Where two parties share the circle without a common count, each cell carries a mark that says
whose it is (`Marked`): a party that reads the mark of the cell it comes to next learns whether
the circle is empty (`Marked.own_out`) or full (`Marked.own_in`), and it may set that mark
(`Marked.give`) or clear it (`Marked.take`).
-/

namespace Ring

variable {α : Type}

/-- The index after `i`: one on, and from the end back to the start. -/
def next (size i : Nat) : Nat := if i + 1 = size then 0 else i + 1

theorem next_lt {size i : Nat} (hi : i < size) : next size i < size := by
  rw [next]
  split <;> omega

/-- Steps of `next` are steps in the circle. -/
theorem next_mod (size i k : Nat) :
    (next size i + k) % size = (i + (k + 1)) % size := by
  rw [next]
  split
  · next h =>
      rw [Nat.zero_add, show i + (k + 1) = k + size by omega, Nat.add_mod_right]
  · rw [show i + 1 + k = i + (k + 1) by omega]

theorem next_eq_mod {size i : Nat} (hi : i < size) : next size i = (i + 1) % size := by
  have h := next_mod size i 0
  rwa [Nat.add_zero, Nat.mod_eq_of_lt (next_lt hi), Nat.zero_add] at h

/-- The `n` cells from `out` on. -/
def contents (cells : Nat → α) (size out n : Nat) : List α :=
  (List.range n).map fun k => cells ((out + k) % size)

@[simp] theorem length_contents (cells : Nat → α) (size out n : Nat) :
    (contents cells size out n).length = n := by
  rw [contents, List.length_map, List.length_range]

/-- **A take** gives the oldest cell and leaves the others. -/
theorem contents_take (cells : Nat → α) {size out : Nat} (hout : out < size) (n : Nat) :
    contents cells size out (n + 1) = cells out :: contents cells size (next size out) n := by
  rw [contents, contents, List.range_succ_eq_map, List.map_cons, Nat.add_zero,
    Nat.mod_eq_of_lt hout, List.map_map]
  congr 1
  exact List.map_congr_left fun k _ => by rw [Function.comp, next_mod, Nat.succ_eq_add_one]

/-- Cells less than a circle apart are different. -/
theorem index_ne {size out k n : Nat} (hk : k < n) (hn : n < size) :
    (out + k) % size ≠ (out + n) % size := by
  intro h
  have hd := Nat.sub_mod_eq_zero_of_mod_eq h.symm
  rw [show out + n - (out + k) = n - k by omega, Nat.mod_eq_of_lt (by omega)] at hd
  omega

theorem index_inj {size out j k : Nat} (hj : j < size) (hk : k < size)
    (h : (out + j) % size = (out + k) % size) : j = k := by
  rcases Nat.lt_trichotomy j k with hlt | heq | hlt
  · exact absurd h (index_ne hlt hk)
  · exact heq
  · exact absurd h.symm (index_ne hlt hj)

/-- The contents depend on their own cells only. -/
theorem contents_congr {cells cells' : Nat → α} {size out n : Nat}
    (h : ∀ k < n, cells' ((out + k) % size) = cells ((out + k) % size)) :
    contents cells' size out n = contents cells size out n :=
  List.map_congr_left fun k hk => h k (List.mem_range.mp hk)

/-- **A put** into the cell behind the contents of a buffer that is not full appends to them. -/
theorem contents_put (cells : Nat → α) {size out n : Nat} (hn : n < size) (x : α) :
    contents (Function.update cells ((out + n) % size) x) size out (n + 1) =
      contents cells size out n ++ [x] := by
  rw [contents, List.range_succ, List.map_append, List.map_singleton, Function.update_self]
  congr 1
  exact contents_congr fun k hk => Function.update_of_ne (index_ne hk hn) _ _

/-! ## Marks -/

/-- The `n` cells from `out` on are marked, and no others. -/
structure Marked (own : Nat → Bool) (size out n : Nat) : Prop where
  out_lt : out < size
  le : n ≤ size
  own_iff : ∀ k < size, own ((out + k) % size) = true ↔ k < n

namespace Marked

variable {own own' : Nat → Bool} {size out n : Nat}

/-- The cell at the near end is marked unless none is. -/
theorem own_out (h : Marked own size out n) : own out = true ↔ 0 < n := by
  have hzero := h.own_iff 0 (by have := h.out_lt; omega)
  rwa [Nat.add_zero, Nat.mod_eq_of_lt h.out_lt] at hzero

/-- The cell behind the marked ones is not marked unless all are. -/
theorem own_in (h : Marked own size out n) : own ((out + n) % size) = true ↔ n = size := by
  rcases Nat.lt_or_eq_of_le h.le with hlt | heq
  · rw [h.own_iff n hlt]
    omega
  · rw [heq, Nat.add_mod_right, Nat.mod_eq_of_lt h.out_lt, h.own_out]
    have := h.out_lt
    omega

/-- **Marking** the cell behind the marked ones. -/
theorem give (h : Marked own size out n) (hn : n < size) :
    Marked (Function.update own ((out + n) % size) true) size out (n + 1) := by
  refine ⟨h.out_lt, hn, fun k hk => ?_⟩
  by_cases hkn : k = n
  · rw [hkn, Function.update_self]
    simp
  · rw [Function.update_of_ne fun heq => hkn (index_inj hk hn heq), h.own_iff k hk]
    omega

/-- **Clearing** the mark at the near end. -/
theorem take (h : Marked own size out (n + 1)) :
    Marked (Function.update own out false) size (next size out) n := by
  have hout := h.out_lt
  refine ⟨next_lt hout, Nat.le_of_succ_le h.le, fun k hk => ?_⟩
  rw [next_mod]
  by_cases hlast : k + 1 = size
  · rw [hlast, Nat.add_mod_right, Nat.mod_eq_of_lt hout, Function.update_self]
    have := h.le
    simp only [Bool.false_eq_true, false_iff]
    omega
  · have hne : (out + (k + 1)) % size ≠ out := fun heq => by
      have hzero : (out + (k + 1)) % size = (out + 0) % size := by
        rw [heq, Nat.add_zero, Nat.mod_eq_of_lt hout]
      exact absurd (index_inj (by omega) (by omega) hzero) (by omega)
    rw [Function.update_of_ne hne, h.own_iff (k + 1) (by omega)]
    omega

theorem congr (h : Marked own size out n) (heq : own' = own) : Marked own' size out n := heq ▸ h

end Marked

end Ring
