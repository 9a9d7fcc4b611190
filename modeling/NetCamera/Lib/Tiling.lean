import Mathlib.Data.List.Chain
import Mathlib.Data.List.Basic

/-!
# Tiling

An area cut into cells that lie one behind the other, each free or owned, and the headers that
describe them in memory.

* `placed` — the cells with their offsets;
* `Gap` — a stretch without owned bytes; where no two neighbours are free (`Merged`) it lies in one
  free cell, so `firstFit` finds the lowest of its length (`firstFit_eq_some_iff`);
* `Laid` — every cell has a header at its start that says where the next and the one before start.
-/

namespace Tiling

variable {α β : Type}

structure Cell (α : Type) where
  len : Nat
  owner : Option α
  deriving DecidableEq, Repr

def Cell.Free (c : Cell α) : Prop := c.owner = none

instance (c : Cell α) : Decidable c.Free :=
  decidable_of_iff (c.owner.isNone = true) (by simp [Cell.Free])

@[simp] theorem free_mk (n : Nat) : (⟨n, none⟩ : Cell α).Free := rfl

@[simp] theorem not_free_mk (n : Nat) (a : α) : ¬ (⟨n, some a⟩ : Cell α).Free := nofun

/-! ## Where the cells lie -/

def extent : List (Cell α) → Nat
  | [] => 0
  | c :: cs => c.len + extent cs

/-- The cells with their offsets, the first one at `o`. -/
def placed : Nat → List (Cell α) → List (Nat × Cell α)
  | _, [] => []
  | o, c :: cs => (o, c) :: placed (o + c.len) cs

@[simp] theorem extent_nil : extent ([] : List (Cell α)) = 0 := rfl

@[simp] theorem extent_cons (c : Cell α) (cs : List (Cell α)) :
    extent (c :: cs) = c.len + extent cs := rfl

@[simp] theorem extent_append (xs ys : List (Cell α)) :
    extent (xs ++ ys) = extent xs + extent ys := by
  induction xs with
  | nil => simp
  | cons c xs ih => simp [ih, Nat.add_assoc]

theorem dvd_extent {k : Nat} {cs : List (Cell α)} (h : ∀ c ∈ cs, k ∣ c.len) : k ∣ extent cs := by
  induction cs with
  | nil => simp
  | cons c cs ih =>
      rw [List.forall_mem_cons] at h
      exact Nat.dvd_add h.1 (ih h.2)

@[simp] theorem placed_nil (o : Nat) : placed o ([] : List (Cell α)) = [] := rfl

@[simp] theorem placed_cons (o : Nat) (c : Cell α) (cs : List (Cell α)) :
    placed o (c :: cs) = (o, c) :: placed (o + c.len) cs := rfl

@[simp] theorem placed_append (o : Nat) (xs ys : List (Cell α)) :
    placed o (xs ++ ys) = placed o xs ++ placed (o + extent xs) ys := by
  induction xs generalizing o with
  | nil => simp
  | cons c xs ih => simp [ih, Nat.add_assoc]

/-- A cell lies inside the area. -/
theorem placed_bounds {cs : List (Cell α)} {o : Nat} {x : Nat × Cell α} (hx : x ∈ placed o cs) :
    o ≤ x.1 ∧ x.1 + x.2.len ≤ o + extent cs := by
  induction cs generalizing o with
  | nil => simp at hx
  | cons c cs ih =>
      rw [placed_cons, List.mem_cons] at hx
      rw [extent_cons]
      rcases hx with rfl | hx
      · exact ⟨Nat.le_refl o, by dsimp only; omega⟩
      · have := ih hx
        omega

/-- A cell in its place is one of the cells, with the cells before it and behind it. -/
theorem mem_placed {cs : List (Cell α)} {o p : Nat} {c : Cell α} :
    (p, c) ∈ placed o cs ↔ ∃ pre post, cs = pre ++ c :: post ∧ p = o + extent pre := by
  constructor
  · intro h
    induction cs generalizing o with
    | nil => simp at h
    | cons d cs ih =>
        rw [placed_cons, List.mem_cons] at h
        rcases h with h | h
        · obtain ⟨rfl, rfl⟩ := Prod.mk.inj h
          exact ⟨[], cs, rfl, rfl⟩
        · obtain ⟨pre, post, rfl, rfl⟩ := ih h
          exact ⟨d :: pre, post, rfl, by simp [Nat.add_assoc]⟩
  · rintro ⟨pre, post, rfl, rfl⟩
    simp

theorem mem_of_placed {cs : List (Cell α)} {o : Nat} {x : Nat × Cell α} (hx : x ∈ placed o cs) :
    x.2 ∈ cs := by
  obtain ⟨pre, post, rfl, -⟩ := mem_placed.mp hx
  simp

/-- Cells do not overlap. -/
theorem placed_pairwise (o : Nat) (cs : List (Cell α)) :
    (placed o cs).Pairwise fun x y => x.1 + x.2.len ≤ y.1 := by
  induction cs generalizing o with
  | nil => exact .nil
  | cons c cs ih => exact List.pairwise_cons.mpr ⟨fun y hy => (placed_bounds hy).1, ih _⟩

/-- Of two cells the one starts behind the other one, or they are the same. -/
theorem placed_apart {cs : List (Cell α)} {o : Nat} {x y : Nat × Cell α} (hx : x ∈ placed o cs)
    (hy : y ∈ placed o cs) : x = y ∨ x.1 + x.2.len ≤ y.1 ∨ y.1 + y.2.len ≤ x.1 := by
  induction cs generalizing o with
  | nil => simp at hx
  | cons c cs ih =>
      rw [placed_cons, List.mem_cons] at hx hy
      rcases hx with rfl | hx <;> rcases hy with rfl | hy
      · exact .inl rfl
      · exact .inr (.inl (placed_bounds hy).1)
      · exact .inr (.inr (placed_bounds hx).1)
      · exact ih hx hy

/-- The cells that are not free. -/
def owned (o : Nat) (cs : List (Cell α)) : List (Nat × Cell α) :=
  (placed o cs).filter fun x => decide (¬ x.2.Free)

@[simp] theorem owned_nil (o : Nat) : owned o ([] : List (Cell α)) = [] := rfl

@[simp] theorem owned_append (o : Nat) (xs ys : List (Cell α)) :
    owned o (xs ++ ys) = owned o xs ++ owned (o + extent xs) ys := by
  simp [owned]

theorem owned_cons_free {c : Cell α} (h : c.Free) (o : Nat) (cs : List (Cell α)) :
    owned o (c :: cs) = owned (o + c.len) cs := by
  simp [owned, h]

theorem owned_cons {c : Cell α} (h : ¬ c.Free) (o : Nat) (cs : List (Cell α)) :
    owned o (c :: cs) = (o, c) :: owned (o + c.len) cs := by
  simp [owned, h]

theorem owned_eq_nil {cs : List (Cell α)} (h : ∀ c ∈ cs, c.Free) (o : Nat) : owned o cs = [] := by
  induction cs generalizing o with
  | nil => rfl
  | cons c cs ih =>
      rw [List.forall_mem_cons] at h
      rw [owned_cons_free h.1, ih h.2]

theorem mem_owned {cs : List (Cell α)} {o : Nat} {x : Nat × Cell α} :
    x ∈ owned o cs ↔ x ∈ placed o cs ∧ ¬ x.2.Free := by
  simp [owned]

/-! ## Gaps -/

/-- No two neighbours are free. -/
def Merged (cs : List (Cell α)) : Prop := cs.IsChain fun c d => c.Free → ¬ d.Free

/-- Around a free cell there are owned ones, or none. -/
theorem merged_split {pre post : List (Cell α)} {c : Cell α} :
    Merged (pre ++ c :: post) ↔ Merged pre ∧ Merged post ∧
      (c.Free → (∀ d ∈ pre.getLast?, ¬ d.Free) ∧ ∀ d ∈ post.head?, ¬ d.Free) := by
  simp only [Merged, List.isChain_append, List.isChain_cons, List.head?_cons, Option.mem_def,
    Option.some.injEq]
  grind

theorem merged_cons {c : Cell α} {post : List (Cell α)} :
    Merged (c :: post) ↔ Merged post ∧ (c.Free → ∀ d ∈ post.head?, ¬ d.Free) := by
  simp only [Merged, List.isChain_cons]
  grind

/-- None of the `n` bytes from `p` on is owned. -/
def Gap (o : Nat) (cs : List (Cell α)) (p n : Nat) : Prop :=
  o ≤ p ∧ p + n ≤ o + extent cs ∧
    ∀ x ∈ placed o cs, ¬ x.2.Free → p + n ≤ x.1 ∨ x.1 + x.2.len ≤ p

/-- **A gap lies in one free cell**, as the cells around a free one are owned. -/
theorem gap_iff {cs : List (Cell α)} (hmerged : Merged cs) {o p n : Nat} (hn : 0 < n) :
    Gap o cs p n ↔ ∃ x ∈ placed o cs, x.2.Free ∧ x.1 ≤ p ∧ p + n ≤ x.1 + x.2.len := by
  constructor
  · rintro ⟨hle, hend, hgap⟩
    induction cs generalizing o with
    | nil =>
        rw [extent_nil] at hend
        omega
    | cons c cs ih =>
        rw [extent_cons] at hend
        simp only [placed_cons, List.forall_mem_cons] at hgap
        obtain ⟨hhead, hgap⟩ := hgap
        by_cases hin : o + c.len ≤ p
        · obtain ⟨x, hx, h⟩ := ih hmerged.tail hin (by omega) hgap
          exact ⟨x, List.mem_cons_of_mem _ hx, h⟩
        · have hfree : c.Free := by
            by_contra hused
            have := hhead hused
            omega
          refine ⟨(o, c), List.mem_cons_self, hfree, hle, ?_⟩
          -- the byte behind `c` would be one of an owned cell, or outside
          dsimp only
          by_contra hlong
          cases cs with
          | nil =>
              rw [extent_nil] at hend
              omega
          | cons d ds =>
              have := hgap _ List.mem_cons_self ((List.isChain_cons_cons.mp hmerged).1 hfree)
              simp only at this
              omega
  · rintro ⟨x, hx, hfree, hle, hend⟩
    have hbounds := placed_bounds hx
    refine ⟨by omega, by omega, fun y hy hused => ?_⟩
    rcases placed_apart hx hy with rfl | h | h
    · exact absurd hfree hused
    · omega
    · omega

/-- The offset of the first free cell of at least `n` bytes. -/
def firstFit (n o : Nat) (cs : List (Cell α)) : Option Nat :=
  ((placed o cs).find? fun x => decide (x.2.Free ∧ n ≤ x.2.len)).map Prod.fst

theorem firstFit_cons (n o : Nat) (c : Cell α) (cs : List (Cell α)) :
    firstFit n o (c :: cs) =
      if c.Free ∧ n ≤ c.len then some o else firstFit n (o + c.len) cs := by
  rw [firstFit, placed_cons, List.find?_cons]
  by_cases h : c.Free ∧ n ≤ c.len <;> simp [h, firstFit]

/-- Owned cells are passed over. -/
theorem firstFit_append {xs : List (Cell α)} (hxs : ∀ c ∈ xs, ¬ c.Free) (n o : Nat)
    (ys : List (Cell α)) : firstFit n o (xs ++ ys) = firstFit n (o + extent xs) ys := by
  induction xs generalizing o with
  | nil => simp
  | cons c xs ih =>
      rw [List.forall_mem_cons] at hxs
      rw [List.cons_append, firstFit_cons, if_neg fun h => hxs.1 h.1, ih hxs.2, extent_cons,
        Nat.add_assoc]

theorem mem_of_firstFit {n o p : Nat} {cs : List (Cell α)} (h : firstFit n o cs = some p) :
    ∃ c, (p, c) ∈ placed o cs ∧ c.Free ∧ n ≤ c.len := by
  obtain ⟨⟨q, c⟩, hfind, rfl⟩ := Option.map_eq_some_iff.mp h
  have hfit := List.find?_some hfind
  rw [decide_eq_true_eq] at hfit
  exact ⟨c, List.mem_of_find?_eq_some hfind, hfit⟩

/-- The tiles before and behind the one that is found. -/
theorem split_of_firstFit {n p : Nat} {cs : List (Cell α)} (h : firstFit n 0 cs = some p) :
    ∃ pre c post, cs = pre ++ c :: post ∧ p = extent pre ∧ c.Free ∧ n ≤ c.len := by
  obtain ⟨c, hc, hfree, hlen⟩ := mem_of_firstFit h
  obtain ⟨pre, post, hcs, hp⟩ := mem_placed.mp hc
  exact ⟨pre, c, post, hcs, by rw [hp, Nat.zero_add], hfree, hlen⟩

theorem firstFit_eq_none_iff {cs : List (Cell α)} (hmerged : Merged cs) {n o : Nat} (hn : 0 < n) :
    firstFit n o cs = none ↔ ∀ p, ¬ Gap o cs p n := by
  simp only [firstFit, Option.map_eq_none_iff, List.find?_eq_none, decide_eq_true_eq,
    gap_iff hmerged hn]
  constructor
  · rintro h p ⟨x, hx, hfree, hle, hend⟩
    exact h x hx ⟨hfree, by omega⟩
  · intro h x hx hfit
    exact h x.1 ⟨x, hx, hfit.1, Nat.le_refl _, Nat.add_le_add_left hfit.2 _⟩

/-- What fits before the first fit does not fit. -/
theorem firstFit_least {cs : List (Cell α)} (hmerged : Merged cs) {n o p : Nat} (hn : 0 < n)
    (h : firstFit n o cs = some p) : Gap o cs p n ∧ ∀ q < p, ¬ Gap o cs q n := by
  obtain ⟨c, hc, hfree, hlen⟩ := mem_of_firstFit h
  obtain ⟨x, hfind, rfl⟩ := Option.map_eq_some_iff.mp h
  obtain ⟨-, before, behind, hplaced, hbefore⟩ := List.find?_eq_some_iff_append.mp hfind
  refine ⟨(gap_iff hmerged hn).mpr
    ⟨_, hc, hfree, Nat.le_refl _, Nat.add_le_add_left hlen _⟩, fun q hq hgap => ?_⟩
  obtain ⟨y, hy, hyfree, hle, hend⟩ := (gap_iff hmerged hn).mp hgap
  have hsorted := placed_pairwise o cs
  rw [hplaced] at hsorted hy
  rw [List.pairwise_append, List.pairwise_cons] at hsorted
  rcases List.mem_append.mp hy with hy | hy
  · have hno := hbefore y hy
    simp only [Bool.not_eq_true', decide_eq_false_iff_not] at hno
    exact hno ⟨hyfree, by omega⟩
  · rcases List.mem_cons.mp hy with rfl | hy
    · omega
    · have := hsorted.2.1.1 y hy
      omega

/-- **First fit**: the lowest gap of `n` bytes. -/
theorem firstFit_eq_some_iff {cs : List (Cell α)} (hmerged : Merged cs) {n o p : Nat}
    (hn : 0 < n) :
    firstFit n o cs = some p ↔ Gap o cs p n ∧ ∀ q < p, ¬ Gap o cs q n := by
  refine ⟨firstFit_least hmerged hn, fun ⟨hgap, hleast⟩ => ?_⟩
  cases hfind : firstFit n o cs with
  | none => exact absurd hgap ((firstFit_eq_none_iff hmerged hn).mp hfind p)
  | some q =>
      obtain ⟨hgap', hleast'⟩ := firstFit_least hmerged hn hfind
      have hle : ¬ q < p := fun h => hleast q h hgap'
      have hge : ¬ p < q := fun h => hleast' p h hgap
      rw [show q = p by omega]

/-- The lowest free cell is at `l`, or there is none and `l` is the end. -/
structure Lowest (o : Nat) (cs : List (Cell α)) (l : Nat) : Prop where
  le : ∀ x ∈ placed o cs, x.2.Free → l ≤ x.1
  at_free : l = o + extent cs ∨ ∃ c, (l, c) ∈ placed o cs ∧ c.Free

theorem Lowest.append (pre : List (Cell α)) {cs : List (Cell α)} {o l : Nat}
    (hpre : ∀ c ∈ pre, ¬ c.Free) (h : Lowest (o + extent pre) cs l) : Lowest o (pre ++ cs) l where
  le x hx hfree := by
    rw [placed_append, List.mem_append] at hx
    rcases hx with hx | hx
    · exact absurd hfree (hpre _ (mem_of_placed hx))
    · exact h.le x hx hfree
  at_free := by
    simp only [extent_append, placed_append, List.mem_append, ← Nat.add_assoc]
    exact h.at_free.imp_right fun ⟨c, hc, hfree⟩ => ⟨c, .inr hc, hfree⟩

/-- What lies behind does not matter. -/
theorem Lowest.of_lt {pre cs cs' : List (Cell α)} {o l : Nat} (h : Lowest o (pre ++ cs) l)
    (hl : l < o + extent pre) : Lowest o (pre ++ cs') l where
  le x hx hfree := by
    rw [placed_append, List.mem_append] at hx
    rcases hx with hx | hx
    · exact h.le x (by simp [hx]) hfree
    · have := (placed_bounds hx).1
      omega
  at_free := by
    rcases h.at_free with hend | ⟨c, hc, hfree⟩
    · rw [extent_append] at hend
      omega
    · rw [placed_append, List.mem_append] at hc
      rcases hc with hc | hc
      · exact .inr ⟨c, by simp [hc], hfree⟩
      · have := (placed_bounds hc).1
        omega

/-- A cell becomes free. -/
theorem Lowest.release {pre post : List (Cell α)} {c : Cell α} {o l : Nat}
    (h : Lowest o (pre ++ c :: post) l) :
    Lowest o (pre ++ ⟨c.len, none⟩ :: post) (min l (o + extent pre)) where
  le x hx hfree := by
    simp only [placed_append, placed_cons, List.mem_append, List.mem_cons] at hx
    rcases hx with hx | rfl | hx
    · exact Nat.le_trans (Nat.min_le_left _ _) (h.le x (by simp [hx]) hfree)
    · exact Nat.min_le_right _ _
    · exact Nat.le_trans (Nat.min_le_left _ _) (h.le x (by simp [hx]) hfree)
  at_free := by
    by_cases hl : l < o + extent pre
    · rw [Nat.min_eq_left (Nat.le_of_lt hl)]
      exact (h.of_lt hl).at_free
    · rw [Nat.min_eq_right (Nat.le_of_not_lt hl)]
      exact .inr ⟨⟨c.len, none⟩, by simp, free_mk _⟩

/-- It is never inside a cell. -/
theorem Lowest.outside {cs : List (Cell α)} {o l : Nat} (h : Lowest o cs l) {x : Nat × Cell α}
    (hx : x ∈ placed o cs) : l ≤ x.1 ∨ x.1 + x.2.len ≤ l := by
  rcases h.at_free with rfl | ⟨c, hc, -⟩
  · exact .inr (placed_bounds hx).2
  · rcases placed_apart hc hx with rfl | hbefore | hbehind
    · exact .inl (Nat.le_refl _)
    · exact .inl (Nat.le_trans (Nat.le_add_right _ _) hbefore)
    · exact .inr hbehind

/-- An owned cell has another owner. -/
theorem Lowest.own {pre post : List (Cell α)} {c : Cell α} {o l : Nat}
    (h : Lowest o (pre ++ c :: post) l) (hc : ¬ c.Free) (a : α) :
    Lowest o (pre ++ ⟨c.len, some a⟩ :: post) l where
  le x hx hfree := by
    simp only [placed_append, placed_cons, List.mem_append, List.mem_cons] at hx
    rcases hx with hx | rfl | hx
    · exact h.le x (by simp [hx]) hfree
    · exact absurd hfree (not_free_mk c.len a)
    · exact h.le x (by simp [hx]) hfree
  at_free := by
    refine h.at_free.imp (fun hend => by simpa using hend) fun ⟨d, hd, hfree⟩ => ⟨d, ?_, hfree⟩
    simp only [placed_append, placed_cons, List.mem_append, List.mem_cons] at hd ⊢
    rcases hd with hd | heq | hd
    · exact .inl hd
    · exact absurd ((Prod.mk.inj heq).2 ▸ hfree) hc
    · exact .inr (.inr hd)

/-- A free cell takes the one behind it in. -/
theorem Lowest.join {pre post : List (Cell α)} {c d : Cell α} {o l : Nat}
    (h : Lowest o (pre ++ c :: d :: post) l) (hfree : c.Free) :
    Lowest o (pre ++ ⟨c.len + d.len, c.owner⟩ :: post) l where
  le x hx hx' := by
    simp only [placed_append, placed_cons, List.mem_append, List.mem_cons, ← Nat.add_assoc] at hx
    rcases hx with hx | rfl | hx
    · exact h.le x (by simp [hx]) hx'
    · exact h.le (o + extent pre, c) (by simp) hfree
    · exact h.le x (by simp [hx]) hx'
  at_free := by
    have hle := h.le (o + extent pre, c) (by simp) hfree
    by_cases hl : l < o + extent pre
    · exact (h.of_lt hl).at_free
    · rw [show l = o + extent pre from Nat.le_antisymm hle (Nat.le_of_not_lt hl)]
      exact .inr ⟨⟨c.len + d.len, c.owner⟩, by simp, hfree⟩

/-- A cell that is cut leaves a free one behind its first `n` bytes. -/
theorem Lowest.cut {pre old post : List (Cell α)} {o l n k : Nat} (a : α)
    (h : Lowest o (pre ++ old) l) (hpos : ∀ c ∈ pre, 0 < c.len) (hn : n ≤ extent old)
    (hold : ∀ x ∈ placed (o + extent pre) old, x.2.Free → o + extent pre + n ≤ x.1)
    (hpost : ∀ x ∈ placed (o + extent pre + n + k) post, x.2.Free →
      x ∈ placed (o + extent pre) old) :
    Lowest o (pre ++ ⟨n, some a⟩ :: ⟨k, none⟩ :: post) (min l (o + extent pre + n)) where
  le x hx hfree := by
    simp only [placed_append, placed_cons, List.mem_append, List.mem_cons] at hx
    rcases hx with hx | rfl | rfl | hx
    · exact Nat.le_trans (Nat.min_le_left _ _) (h.le x (by simp [hx]) hfree)
    · exact absurd hfree (not_free_mk n a)
    · exact Nat.min_le_right _ _
    · exact Nat.le_trans (Nat.min_le_left _ _) (h.le x (by simp [hpost x hx hfree]) hfree)
  at_free := by
    by_cases hl : l < o + extent pre
    · rw [Nat.min_eq_left (by omega)]
      exact (h.of_lt hl).at_free
    · have hge : o + extent pre + n ≤ l := by
        rcases h.at_free with hend | ⟨c, hc, hfree⟩
        · rw [extent_append] at hend
          omega
        · rw [placed_append, List.mem_append] at hc
          rcases hc with hc | hc
          · have hbounds := (placed_bounds hc).2
            have hlen := hpos c (mem_of_placed hc)
            dsimp only at hbounds
            omega
          · exact hold _ hc hfree
      rw [Nat.min_eq_right hge]
      exact .inr ⟨⟨k, none⟩, by simp, free_mk k⟩

/-- All cells before the lowest free one are owned. -/
theorem Lowest.before {pre post : List (Cell α)} {o : Nat}
    (h : Lowest o (pre ++ post) (o + extent pre)) (hpos : ∀ c ∈ pre, 0 < c.len) :
    ∀ c ∈ pre, ¬ c.Free := by
  intro c hc hfree
  have hlen := hpos c hc
  obtain ⟨xs, ys, rfl⟩ := List.append_of_mem hc
  have hle := h.le (o + extent xs, c) (by simp) hfree
  simp only [extent_append, extent_cons] at hle
  omega

theorem Lowest.split {cs : List (Cell α)} {o l : Nat} (h : Lowest o cs l)
    (hpos : ∀ c ∈ cs, 0 < c.len) :
    ∃ pre post, cs = pre ++ post ∧ l = o + extent pre ∧ ∀ c ∈ pre, ¬ c.Free := by
  rcases h.at_free with rfl | ⟨c, hc, -⟩
  · have h' : Lowest o (cs ++ []) (o + extent cs) := by rwa [List.append_nil]
    exact ⟨cs, [], (List.append_nil cs).symm, rfl, h'.before hpos⟩
  · obtain ⟨pre, post, rfl, rfl⟩ := mem_placed.mp hc
    exact ⟨pre, c :: post, rfl, rfl, h.before fun d hd => hpos d (by simp [hd])⟩

theorem length_le_extent {k : Nat} {cs : List (Cell α)} (h : ∀ c ∈ cs, k ≤ c.len) :
    k * cs.length ≤ extent cs := by
  induction cs with
  | nil => simp
  | cons c cs ih =>
      rw [List.forall_mem_cons] at h
      rw [List.length_cons, extent_cons, Nat.mul_succ]
      have := ih h.2
      omega

/-! ## Headers -/

/-- What stands at the start of a cell. -/
structure Header where
  next : Nat
  prev : Nat
  used : Bool
  deriving DecidableEq, Repr

/-- The cells have their headers; before the first one, at `o`, starts one at `prev`. -/
def Laid (hdr : Nat → Header) : Nat → Nat → List (Cell α) → Prop
  | _, _, [] => True
  | prev, o, c :: cs =>
    hdr o = ⟨o + c.len, prev, c.owner.isSome⟩ ∧ Laid hdr o (o + c.len) cs

/-- Where the last cell starts. -/
def lastAt : Nat → Nat → List (Cell α) → Nat
  | prev, _, [] => prev
  | _, o, c :: cs => lastAt o (o + c.len) cs

@[simp] theorem laid_nil (hdr : Nat → Header) (prev o : Nat) :
    Laid hdr prev o ([] : List (Cell α)) := trivial

theorem laid_cons {hdr : Nat → Header} {prev o : Nat} {c : Cell α} {cs : List (Cell α)} :
    Laid hdr prev o (c :: cs) ↔
      hdr o = ⟨o + c.len, prev, c.owner.isSome⟩ ∧ Laid hdr o (o + c.len) cs := Iff.rfl

theorem lastAt_append (prev o : Nat) (xs : List (Cell α)) (c : Cell α) :
    lastAt prev o (xs ++ [c]) = o + extent xs := by
  induction xs generalizing prev o with
  | nil => simp [lastAt]
  | cons d xs ih => simp [lastAt, ih, Nat.add_assoc]

/-- Headers of both parts, the second one behind the first. -/
theorem laid_append {hdr : Nat → Header} {prev o : Nat} {xs ys : List (Cell α)} :
    Laid hdr prev o (xs ++ ys) ↔
      Laid hdr prev o xs ∧ Laid hdr (lastAt prev o xs) (o + extent xs) ys := by
  induction xs generalizing prev o with
  | nil => simp [lastAt]
  | cons c xs ih => simp [laid_cons, lastAt, ih, and_assoc, Nat.add_assoc]

variable {hdr hdr' : Nat → Header} {k : Nat}

/-- Headers elsewhere do not matter. -/
theorem Laid.congr {prev o : Nat} {cs : List (Cell α)} (h : Laid hdr prev o cs)
    (hk : ∀ c ∈ cs, k ≤ c.len)
    (heq : ∀ a, o ≤ a → a + k ≤ o + extent cs → hdr' a = hdr a) : Laid hdr' prev o cs := by
  induction cs generalizing prev o with
  | nil => trivial
  | cons c cs ih =>
      rw [List.forall_mem_cons] at hk
      rw [extent_cons] at heq
      obtain ⟨hhead, htail⟩ := laid_cons.mp h
      refine laid_cons.mpr ⟨?_, ih htail hk.2 fun a hle hend => heq a (by omega) (by omega)⟩
      rw [heq o (Nat.le_refl o) (by omega), hhead]

/-- The first cell gets another one before it. -/
theorem Laid.relink {prev prev' o : Nat} {cs : List (Cell α)} (h : Laid hdr prev o cs)
    (hk : ∀ c ∈ cs, k ≤ c.len) (hhead : cs ≠ [] → hdr' o = { hdr o with prev := prev' })
    (heq : ∀ a, o + k ≤ a → a + k ≤ o + extent cs → hdr' a = hdr a) : Laid hdr' prev' o cs := by
  cases cs with
  | nil => trivial
  | cons c cs =>
      rw [List.forall_mem_cons] at hk
      rw [extent_cons] at heq
      obtain ⟨hc, htail⟩ := laid_cons.mp h
      refine laid_cons.mpr ⟨?_, htail.congr hk.2 fun a hle hend => heq a (by omega) (by omega)⟩
      rw [hhead (List.cons_ne_nil c cs), hc]

end Tiling
