/-!
# Tally

Objects that a program obtains and gives back through one variable.

A program that keeps the object it obtained last in a variable, and gives back
what the variable holds, shows in its list of calls which object each release
is for.  `tally` counts the releases of every object obtained, the newest
first.  `Settled` says that each has been given back exactly once, `Pending` that
all have but the newest, which has not been given back yet.
-/

namespace Tally

variable {κ : Type}

/-- The counts after one more call. -/
def count (obt rel : κ → Bool) (ns : List Nat) (c : κ) : List Nat :=
  if obt c then 0 :: ns
  else if rel c then
    match ns with
    | [] => []
    | n :: ns => (n + 1) :: ns
  else ns

/-- How often each object obtained has been given back, the newest first. -/
def tally (obt rel : κ → Bool) (cs : List κ) : List Nat :=
  cs.foldl (count obt rel) []

/-- Every object obtained has been given back exactly once. -/
def Settled (obt rel : κ → Bool) (cs : List κ) : Prop :=
  ∀ n ∈ tally obt rel cs, n = 1

/-- The object obtained last has not been given back, every other one exactly once. -/
def Pending (obt rel : κ → Bool) (cs : List κ) : Prop :=
  ∃ ns, tally obt rel cs = 0 :: ns ∧ ∀ n ∈ ns, n = 1

variable {obt rel : κ → Bool} {cs : List κ} {c : κ}

theorem tally_concat :
    tally obt rel (cs ++ [c]) = count obt rel (tally obt rel cs) c := by
  unfold tally
  rw [List.foldl_append]
  rfl

theorem settled_nil : Settled obt rel [] := by
  intro n hn
  cases hn

/-- A pending object is not settled. -/
theorem Pending.not_settled (h : Pending obt rel cs) : ¬ Settled obt rel cs := by
  obtain ⟨ns, hns, -⟩ := h
  intro hset
  have hzero := hset 0 (hns ▸ List.mem_cons_self)
  cases hzero

/-- None of the calls obtains or gives back. -/
def Others (obt rel : κ → Bool) (ds : List κ) : Prop := ∀ d ∈ ds, obt d = false ∧ rel d = false

theorem tally_append {ds : List κ} (h : Others obt rel ds) :
    tally obt rel (cs ++ ds) = tally obt rel cs := by
  induction ds generalizing cs with
  | nil => rw [List.append_nil]
  | cons d ds ih =>
      have hd := h d List.mem_cons_self
      have hcons : cs ++ d :: ds = (cs ++ [d]) ++ ds := by simp
      rw [hcons, ih fun d' hd' => h d' (List.mem_cons_of_mem d hd')]
      simp [tally_concat, count, hd.1, hd.2]

theorem Settled.append {ds : List κ} (h : Settled obt rel cs) (hds : Others obt rel ds) :
    Settled obt rel (cs ++ ds) := by
  unfold Settled
  rw [tally_append hds]
  exact h

theorem Pending.append {ds : List κ} (h : Pending obt rel cs) (hds : Others obt rel ds) :
    Pending obt rel (cs ++ ds) := by
  unfold Pending
  rw [tally_append hds]
  exact h

theorem Settled.obtained (h : Settled obt rel cs) (ha : obt c = true) :
    Pending obt rel (cs ++ [c]) := by
  refine ⟨tally obt rel cs, ?_, h⟩
  simp [tally_concat, count, ha]

theorem Pending.released (h : Pending obt rel cs) (ha : obt c = false)
    (hr : rel c = true) : Settled obt rel (cs ++ [c]) := by
  obtain ⟨ns, hns, hone⟩ := h
  intro n hn
  simp only [tally_concat, count, ha, hr, hns, Bool.false_eq_true, if_false, if_true] at hn
  rcases List.mem_cons.mp hn with rfl | hn
  · rfl
  · exact hone n hn

end Tally
