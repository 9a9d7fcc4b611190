/-!
# Buf

Fixed-size arrays as C has them: a `Buf α n` is a list of exactly `n` elements,
read by `slice` (a `memcpy` out of the array) and changed by `write` (a `memcpy`
into it), which keeps the size whatever is written where.

The `slice_write_*` lemmas say what a slice reads after a write: the written
elements, or what was there before.  With `slice_add` they evaluate a buffer
that was filled field by field.
-/

/-- An array of exactly `n` elements. -/
structure Buf (α : Type) (n : Nat) where
  elems : List α
  length_elems : elems.length = n
  deriving DecidableEq, Repr

namespace Buf

variable {α : Type} {n : Nat}

attribute [simp] length_elems

/-- `memset`: every element is `a`. -/
def fill (n : Nat) (a : α) : Buf α n := ⟨List.replicate n a, List.length_replicate⟩

/-- The `k` elements from index `off` on. -/
def slice (b : Buf α n) (off k : Nat) : List α := (b.elems.drop off).take k

/-- `memcpy` of `xs` to index `pos`; what would fall outside the array is not
written. -/
def write (b : Buf α n) (pos : Nat) (xs : List α) : Buf α n where
  elems := if pos ≤ n then (b.elems.take pos ++ xs ++ b.elems.drop (pos + xs.length)).take n
    else b.elems
  length_elems := by
    split
    · simp only [List.length_take, List.length_append, List.length_drop, length_elems]
      omega
    · exact b.length_elems

@[simp] theorem elems_fill (a : α) : (fill n a).elems = List.replicate n a := rfl

/-! ## Slices -/

theorem length_slice (b : Buf α n) {off k : Nat} (h : off + k ≤ n) :
    (b.slice off k).length = k := by
  simp only [slice, List.length_take, List.length_drop, length_elems]
  omega

/-- Adjacent slices join. -/
theorem slice_add (b : Buf α n) (off j k : Nat) :
    b.slice off (j + k) = b.slice off j ++ b.slice (off + j) k := by
  simp only [slice, List.take_add, List.drop_drop]

/-! ## Writes -/

/-- A write in bounds replaces its range and nothing else. -/
theorem elems_write (b : Buf α n) {pos : Nat} {xs : List α} (h : pos + xs.length ≤ n) :
    (b.write pos xs).elems = b.elems.take pos ++ xs ++ b.elems.drop (pos + xs.length) := by
  simp only [write]
  rw [if_pos (by omega), List.take_of_length_le]
  simp only [List.length_append, List.length_take, List.length_drop, length_elems]
  omega

/-- Reading back what was written. -/
theorem slice_write_self (b : Buf α n) {pos : Nat} {xs : List α} (h : pos + xs.length ≤ n) :
    (b.write pos xs).slice pos xs.length = xs := by
  have hlen : (b.elems.take pos).length = pos := by
    rw [List.length_take, length_elems]; omega
  rw [slice, elems_write b h, List.append_assoc, List.drop_append_of_le_length (by omega)]
  rw [List.drop_of_length_le (by omega), List.nil_append, List.take_left]

/-- Reading back what was written, the length given apart. -/
theorem slice_write_eq (b : Buf α n) {pos k : Nat} {xs : List α} (hk : xs.length = k)
    (h : pos + k ≤ n) : (b.write pos xs).slice pos k = xs := by
  subst hk
  exact slice_write_self b h

/-- A slice before the written range is as it was. -/
theorem slice_write_before (b : Buf α n) {pos off k : Nat} {xs : List α} (h : off + k ≤ pos) :
    (b.write pos xs).slice off k = b.slice off k := by
  by_cases hpos : pos ≤ n
  · simp only [slice, write, if_pos hpos]
    rw [List.drop_take, List.take_take, Nat.min_eq_left (by omega), List.append_assoc,
      List.drop_append_of_le_length (by rw [List.length_take, length_elems]; omega),
      List.take_append_of_le_length
        (by rw [List.length_drop, List.length_take, length_elems]; omega),
      List.drop_take, List.take_take, Nat.min_eq_left (by omega)]
  · simp only [slice, write, if_neg hpos]

/-- A slice after the written range is as it was. -/
theorem slice_write_after (b : Buf α n) {pos off k : Nat} {xs : List α}
    (h : pos + xs.length ≤ off) (hn : pos + xs.length ≤ n) :
    (b.write pos xs).slice off k = b.slice off k := by
  have hlen : (b.elems.take pos ++ xs).length = pos + xs.length := by
    rw [List.length_append, List.length_take, length_elems]; omega
  rw [slice, elems_write b hn, List.drop_append, hlen, List.drop_of_length_le (by omega),
    List.nil_append, List.drop_drop, slice]
  congr 2
  omega

/-- What follows the written range is as it was. -/
theorem drop_write_after (b : Buf α n) {pos off : Nat} {xs : List α}
    (h : pos + xs.length ≤ off) (hn : pos + xs.length ≤ n) :
    (b.write pos xs).elems.drop off = b.elems.drop off := by
  have hlen : (b.elems.take pos ++ xs).length = pos + xs.length := by
    rw [List.length_append, List.length_take, length_elems]; omega
  rw [elems_write b hn, List.drop_append, hlen, List.drop_of_length_le (by omega),
    List.nil_append, List.drop_drop]
  congr 1
  omega

/-- Arrays with the same elements are the same. -/
theorem ext {b c : Buf α n} (h : b.elems = c.elems) : b = c := by
  obtain ⟨elems, hlen⟩ := b
  subst h
  rfl

/-- Writing nothing changes nothing. -/
@[simp] theorem write_nil (b : Buf α n) (pos : Nat) : b.write pos [] = b := by
  obtain ⟨elems, hlen⟩ := b
  by_cases hpos : pos ≤ n
  · simp [write, ← hlen]
  · simp [write, hpos]

/-- The elements after a write that starts inside the array. -/
theorem elems_write_le (b : Buf α n) {pos : Nat} (h : pos ≤ n) (xs : List α) :
    (b.write pos xs).elems =
      (b.elems.take pos ++ xs ++ b.elems.drop (pos + xs.length)).take n := if_pos h

/-- A write at the end of the array or behind it changes nothing. -/
theorem write_of_le (b : Buf α n) {pos : Nat} (h : n ≤ pos) (xs : List α) :
    b.write pos xs = b := by
  apply ext
  by_cases heq : pos = n
  · subst heq
    rw [elems_write_le b (Nat.le_refl _), List.append_assoc,
      List.take_append_of_le_length (by simp), List.take_take, Nat.min_self,
      List.take_of_length_le (by simp)]
  · exact if_neg (by omega)

/-- Writing element by element. -/
theorem write_cons (b : Buf α n) (pos : Nat) (x : α) (xs : List α) :
    b.write pos (x :: xs) = (b.write pos [x]).write (pos + 1) xs := by
  by_cases hpos : pos < n
  · have hfit : pos + [x].length ≤ n := by rw [List.length_singleton]; omega
    have hone := elems_write b hfit
    have hlen : (b.elems.take pos ++ [x]).length = pos + 1 := by
      rw [List.length_append, List.length_take, length_elems, List.length_singleton]; omega
    have hdrop : (b.elems.take pos ++ [x] ++ b.elems.drop (pos + [x].length)).drop
        (pos + 1 + xs.length) = b.elems.drop (pos + (x :: xs).length) := by
      have hle : (b.elems.take pos ++ [x]).length ≤ pos + 1 + xs.length := by omega
      rw [List.drop_append, List.drop_of_length_le hle, hlen, List.nil_append, List.drop_drop,
        List.length_singleton, List.length_cons]
      congr 1
      omega
    apply ext
    rw [elems_write_le _ (by omega), elems_write_le _ (by omega), hone, hdrop, List.take_left' hlen]
    simp only [List.append_assoc, List.cons_append, List.nil_append]
  · rw [write_of_le b (by omega), write_of_le b (by omega), write_of_le b (by omega)]

/-- Writes back to back are one write. -/
theorem write_append (b : Buf α n) (pos : Nat) (xs ys : List α) :
    b.write pos (xs ++ ys) = (b.write pos xs).write (pos + xs.length) ys := by
  induction xs generalizing b pos with
  | nil => rw [List.nil_append, write_nil, List.length_nil, Nat.add_zero]
  | cons x xs ih =>
      rw [List.cons_append, write_cons, ih, write_cons b pos x xs, List.length_cons,
        Nat.add_right_comm, Nat.add_assoc]

end Buf
