import NetCamera.Lib.Buf
import NetCamera.Lib.Ring

/-!
# Chunks

A list cut into pieces of `n` elements, the last one perhaps shorter, and a list that lies piece
by piece in a circle of buffers of `n` elements (`Lies`), as a frame lies in the buffers of a
chain of descriptors.  It is written there bit by bit (`Lies.append`).
-/

namespace Chunks

variable {α : Type} {n : Nat}

/-- The `k`-th piece of `n` elements. -/
def chunk (n k : Nat) (xs : List α) : List α := (xs.drop (k * n)).take n

/-- Pieces from the `i`-th on are pieces. -/
theorem chunk_drop (n i k : Nat) (xs : List α) :
    chunk n k (xs.drop (i * n)) = chunk n (i + k) xs := by
  rw [chunk, chunk, List.drop_drop, Nat.add_mul]

theorem length_chunk (n k : Nat) (xs : List α) :
    (chunk n k xs).length = min n (xs.length - k * n) := by
  rw [chunk, List.length_take, List.length_drop]

/-- The pieces of `xs` lie at the start of the buffers from `start` on. -/
def Lies (bufs : Nat → Buf α n) (size start : Nat) (xs : List α) : Prop :=
  ∀ k, k * n < xs.length →
    (bufs ((start + k) % size)).slice 0 (chunk n k xs).length = chunk n k xs

theorem Lies.nil (bufs : Nat → Buf α n) (size start : Nat) : Lies bufs size start [] :=
  fun _ h => absurd h (Nat.not_lt_zero _)

/-- The list without its first piece lies one buffer further on. -/
theorem Lies.next {bufs : Nat → Buf α n} {size start i : Nat} {xs : List α}
    (h : Lies bufs size start (xs.drop (i * n))) :
    Lies bufs size (Ring.next size start) (xs.drop ((i + 1) * n)) := by
  intro k hk
  have hkey := h (k + 1) (by
    rw [List.length_drop] at hk ⊢
    rw [Nat.succ_mul] at hk ⊢
    omega)
  rw [chunk_drop] at hkey ⊢
  rw [Ring.next_mod]
  rwa [show i + (k + 1) = i + 1 + k by omega] at hkey

/-- **Writing on.**  What is written behind the list into the buffer in which it ends makes it
longer. -/
theorem Lies.append {bufs : Nat → Buf α n} {size start j off : Nat} {xs ys : List α}
    (h : Lies bufs size start xs) (hlen : xs.length = j * n + off) (hj : j < size)
    (hfit : off + ys.length ≤ n) :
    Lies (Function.update bufs ((start + j) % size)
      ((bufs ((start + j) % size)).write off ys)) size start (xs ++ ys) := by
  intro k hk
  rw [List.length_append, hlen] at hk
  rcases Nat.lt_trichotomy k j with hlt | heq | hgt
  · -- a full piece, in a buffer before the last
    have hfull : (k + 1) * n ≤ j * n := Nat.mul_le_mul_right n hlt
    rw [Nat.succ_mul] at hfull
    have hsame : chunk n k (xs ++ ys) = chunk n k xs := by
      rw [chunk, chunk, List.drop_append_of_le_length (by omega),
        List.take_append_of_le_length (by rw [List.length_drop]; omega)]
    rw [hsame, Function.update_of_ne (Ring.index_ne hlt hj)]
    rcases Nat.eq_zero_or_pos n with hn | hn
    · subst hn
      have hnil : chunk 0 k xs = [] := List.take_zero
      rw [hnil]
      exact List.take_zero
    · exact h k (by omega)
  · -- the last piece
    subst heq
    have hpiece : chunk n k (xs ++ ys) = chunk n k xs ++ ys := by
      rw [chunk, chunk, List.drop_append_of_le_length (by omega),
        List.take_of_length_le (by simp only [List.length_append, List.length_drop]; omega),
        List.take_of_length_le (by rw [List.length_drop]; omega)]
    have hoff : (chunk n k xs).length = off := by
      rw [length_chunk]
      omega
    rw [hpiece, Function.update_self, List.length_append, Buf.slice_add, Nat.zero_add, hoff,
      Buf.slice_write_before _ (by omega), Buf.slice_write_self _ hfit]
    rcases Nat.eq_zero_or_pos off with hzero | hpos
    · rw [hzero] at hoff ⊢
      rw [List.eq_nil_of_length_eq_zero hoff]
      exact congrArg (· ++ ys) List.take_zero
    · have hkey := h k (by omega)
      rw [hoff] at hkey
      rw [hkey]
  · -- there is no further piece
    have hbeyond : (j + 1) * n ≤ k * n := Nat.mul_le_mul_right n hgt
    rw [Nat.succ_mul] at hbeyond
    omega

end Chunks
