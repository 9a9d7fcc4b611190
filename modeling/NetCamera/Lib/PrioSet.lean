import Mathlib.Order.Bounds.Basic
import Mathlib.Logic.Equiv.Fin.Basic

/-!
# PrioSet

Sets of priorities as bitmaps of two levels.

A priority below `w * w` is a member of a group: `p.divNat` is its group and `p.modNat` its place
there.  `tbl y` holds the members of group `y`, and bit `y` of `grp` says that the group
is not empty; a `PrioSet` carries the proof that the two levels agree, so a bitmap out
of step cannot be built.

The least member is found by two lookups of a table (`least`).  All that is asked of the
table is that it gives the lowest set bit of a word that has one (`IsUnMap`).
-/

/-- A bitmap of two levels. -/
structure PrioSet (w : Nat) where
  grp : BitVec w
  tbl : Fin w → BitVec w
  grp_iff : ∀ y : Fin w, grp.getLsbD y = true ↔ tbl y ≠ 0#w

namespace PrioSet

variable {w : Nat}

/-- The word with the one bit `i`. -/
def bit (i : Fin w) : BitVec w := BitVec.twoPow w i

theorem getLsbD_bit (i j : Fin w) : (bit i).getLsbD j = decide (i = j) := by
  rw [bit, BitVec.getLsbD_twoPow, decide_eq_true i.isLt, Bool.true_and]
  exact decide_eq_decide.mpr Fin.ext_iff.symm

/-- A word is not zero when one of its bits is set. -/
theorem ne_zero_iff (b : BitVec w) : b ≠ 0#w ↔ ∃ i : Fin w, b.getLsbD i = true := by
  constructor
  · intro h
    by_contra hnone
    refine h (BitVec.eq_of_getLsbD_eq fun i hi => ?_)
    rw [BitVec.getLsbD_zero]
    exact Bool.eq_false_iff.mpr fun hbit => hnone ⟨⟨i, hi⟩, hbit⟩
  · rintro ⟨i, hi⟩ h
    rw [h, BitVec.getLsbD_zero] at hi
    exact Bool.false_ne_true hi

/-! ## Members -/

instance : Membership (Fin (w * w)) (PrioSet w) where
  mem s p := (s.tbl p.divNat).getLsbD p.modNat = true

theorem mem_iff {s : PrioSet w} {p : Fin (w * w)} :
    p ∈ s ↔ (s.tbl p.divNat).getLsbD p.modNat = true := Iff.rfl

instance (s : PrioSet w) (p : Fin (w * w)) : Decidable (p ∈ s) :=
  inferInstanceAs (Decidable ((s.tbl p.divNat).getLsbD p.modNat = true))

/-- The priority with a given group and place. -/
def prio (y x : Fin w) : Fin (w * w) := Fin.mkDivMod y x

theorem eq_iff {p q : Fin (w * w)} : p = q ↔ p.divNat = q.divNat ∧ p.modNat = q.modNat := by
  constructor
  · rintro rfl
    exact ⟨rfl, rfl⟩
  · rintro ⟨hy, hx⟩
    rw [← Fin.divNat_mkDivMod_modNat p, hy, hx, Fin.divNat_mkDivMod_modNat]

/-- No group has a member exactly when no priority is one. -/
theorem grp_eq_zero_iff (s : PrioSet w) : s.grp = 0#w ↔ ∀ p, p ∉ s := by
  constructor
  · intro h p hp
    have hgrp := (s.grp_iff p.divNat).mpr ((ne_zero_iff _).mpr ⟨p.modNat, hp⟩)
    rw [h, BitVec.getLsbD_zero] at hgrp
    exact Bool.false_ne_true hgrp
  · intro h
    by_contra hne
    obtain ⟨y, hy⟩ := (ne_zero_iff _).mp hne
    obtain ⟨x, hx⟩ := (ne_zero_iff _).mp ((s.grp_iff y).mp hy)
    refine h (prio y x) ?_
    rwa [mem_iff, prio, Fin.divNat_mkDivMod, Fin.modNat_mkDivMod]

theorem grp_ne_zero {s : PrioSet w} {p : Fin (w * w)} (hp : p ∈ s) : s.grp ≠ 0#w :=
  fun h => (grp_eq_zero_iff s).mp h p hp

/-! ## Operations -/

/-- The empty set. -/
def empty (w : Nat) : PrioSet w := ⟨0#w, fun _ => 0#w, by simp⟩

@[simp] theorem not_mem_empty (p : Fin (w * w)) : p ∉ empty w := by
  simp [mem_iff, empty]

/-- `tbl[y] |= bitx; grp |= bity`. -/
def insert (s : PrioSet w) (p : Fin (w * w)) : PrioSet w where
  grp := s.grp ||| bit p.divNat
  tbl := Function.update s.tbl p.divNat (s.tbl p.divNat ||| bit p.modNat)
  grp_iff y := by
    rw [BitVec.getLsbD_or, getLsbD_bit, Bool.or_eq_true, decide_eq_true_eq, s.grp_iff]
    by_cases h : p.divNat = y
    · subst h
      refine iff_of_true (.inr rfl) ?_
      rw [Function.update_self]
      exact (ne_zero_iff _).mpr ⟨p.modNat, by rw [BitVec.getLsbD_or, getLsbD_bit]; simp⟩
    · rw [Function.update_of_ne (Ne.symm h)]
      exact ⟨fun hy => hy.resolve_right h, .inl⟩

theorem tbl_insert (s : PrioSet w) (p : Fin (w * w)) : (s.insert p).tbl =
    Function.update s.tbl p.divNat (s.tbl p.divNat ||| bit p.modNat) := rfl

@[simp] theorem mem_insert {s : PrioSet w} {p q : Fin (w * w)} :
    q ∈ s.insert p ↔ q = p ∨ q ∈ s := by
  by_cases h : q.divNat = p.divNat
  · rw [mem_iff, tbl_insert, h, Function.update_self, BitVec.getLsbD_or, getLsbD_bit,
      Bool.or_eq_true, decide_eq_true_eq, mem_iff, h, eq_iff]
    exact ⟨fun hq => hq.symm.imp (fun hx => ⟨h, hx.symm⟩) id,
      fun hq => (hq.imp (fun hx => hx.2.symm) id).symm⟩
  · rw [mem_iff, tbl_insert, Function.update_of_ne h, eq_iff, ← mem_iff]
    exact ⟨.inr, fun hq => hq.resolve_left fun hp => h hp.1⟩

/-- `tbl[y] &= ~bitx; if (tbl[y] == 0) grp &= ~bity`. -/
def remove (s : PrioSet w) (p : Fin (w * w)) : PrioSet w where
  grp :=
    if s.tbl p.divNat &&& ~~~ bit p.modNat = 0#w then s.grp &&& ~~~ bit p.divNat else s.grp
  tbl := Function.update s.tbl p.divNat (s.tbl p.divNat &&& ~~~ bit p.modNat)
  grp_iff y := by
    by_cases h : p.divNat = y
    · subst h
      rw [Function.update_self]
      split
      · next hzero =>
          refine iff_of_false ?_ (not_not.mpr hzero)
          rw [BitVec.getLsbD_and, BitVec.getLsbD_not, getLsbD_bit]
          simp
      · next hne =>
          refine iff_of_true ((s.grp_iff _).mpr fun hzero => hne ?_) hne
          rw [hzero, BitVec.zero_and]
    · rw [Function.update_of_ne (Ne.symm h), ← s.grp_iff]
      split
      · rw [BitVec.getLsbD_and, BitVec.getLsbD_not, getLsbD_bit, decide_eq_false h]
        simp
      · rfl

theorem tbl_remove (s : PrioSet w) (p : Fin (w * w)) : (s.remove p).tbl =
    Function.update s.tbl p.divNat (s.tbl p.divNat &&& ~~~ bit p.modNat) := rfl

@[simp] theorem mem_remove {s : PrioSet w} {p q : Fin (w * w)} :
    q ∈ s.remove p ↔ q ≠ p ∧ q ∈ s := by
  by_cases h : q.divNat = p.divNat
  · rw [mem_iff, tbl_remove, h, Function.update_self, BitVec.getLsbD_and, BitVec.getLsbD_not,
      getLsbD_bit, mem_iff, h, Ne, eq_iff, Bool.and_eq_true, Bool.and_eq_true, Bool.not_eq_true',
      decide_eq_false_iff_not, decide_eq_true_eq]
    constructor
    · rintro ⟨hq, -, hne⟩
      exact ⟨fun hp => hne hp.2.symm, hq⟩
    · rintro ⟨hne, hq⟩
      exact ⟨hq, q.modNat.isLt, fun hx => hne ⟨h, hx.symm⟩⟩
  · rw [mem_iff, tbl_remove, Function.update_of_ne h, Ne, eq_iff, ← mem_iff]
    exact ⟨fun hq => ⟨fun hp => h hp.1, hq⟩, And.right⟩

/-! ## The least member -/

/-- What the lookup table gives: the lowest set bit. -/
structure IsUnMap (unmap : BitVec w → Fin w) : Prop where
  bit_set : ∀ b, b ≠ 0#w → b.getLsbD (unmap b) = true
  le : ∀ b (i : Fin w), b.getLsbD i = true → unmap b ≤ i

/-- `y = unmap[grp]; (y << k) + unmap[tbl[y]]`. -/
def least (unmap : BitVec w → Fin w) (s : PrioSet w) : Fin (w * w) :=
  prio (unmap s.grp) (unmap (s.tbl (unmap s.grp)))

/-- **The two lookups give the least member** of a set that has one. -/
theorem isLeast_least {unmap : BitVec w → Fin w} (h : IsUnMap unmap) {s : PrioSet w}
    (hs : s.grp ≠ 0#w) : IsLeast {p | p ∈ s} (least unmap s) := by
  have hgrp : s.tbl (unmap s.grp) ≠ 0#w := (s.grp_iff _).mp (h.bit_set _ hs)
  constructor
  · show least unmap s ∈ s
    rw [mem_iff, least, prio, Fin.divNat_mkDivMod, Fin.modNat_mkDivMod]
    exact h.bit_set _ hgrp
  · intro q hq
    have hy : unmap s.grp ≤ q.divNat :=
      h.le _ _ ((s.grp_iff _).mpr ((ne_zero_iff _).mpr ⟨q.modNat, hq⟩))
    have hvalue : ∀ p : Fin (w * w), p.val = w * p.divNat.val + p.modNat.val := fun p =>
      (Nat.div_add_mod p.val w).symm
    rw [Fin.le_def, hvalue, hvalue q, least, prio, Fin.divNat_mkDivMod, Fin.modNat_mkDivMod]
    rcases Nat.eq_or_lt_of_le hy with heq | hlt
    · -- the same group: the second lookup decides
      have hq' : q.divNat = unmap s.grp := Fin.ext heq.symm
      have hx : unmap (s.tbl (unmap s.grp)) ≤ q.modNat := h.le _ _ (hq' ▸ hq)
      rw [hq']
      exact Nat.add_le_add_left hx _
    · have hx := (unmap (s.tbl (unmap s.grp))).isLt
      calc w * (unmap s.grp).val + (unmap (s.tbl (unmap s.grp))).val
          ≤ w * ((unmap s.grp).val + 1) := by rw [Nat.mul_add, Nat.mul_one]; omega
        _ ≤ w * q.divNat.val := Nat.mul_le_mul_left w hlt
        _ ≤ w * q.divNat.val + q.modNat.val := Nat.le_add_right _ _

end PrioSet
