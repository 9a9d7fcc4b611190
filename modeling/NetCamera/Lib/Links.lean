import Mathlib.Data.List.Count
import Mathlib.Data.Finset.Max

/-!
# Links

Nodes that have at most one link each, to another node: the chains of singly linked lists that
may share their tails.

`inLinks` counts the links to a node; `Acyclic` says that no chain comes back to where it was, by
a rank that falls along each link.  Then every chain ends (`Acyclic.endsIn_lastOf`), and if there
are nodes at all, one of them is not linked to (`Acyclic.exists_root`).
-/

namespace Links

variable {α : Type} {nodes : List α} {next : α → Option α} {p q l t : α}

/-- Links lead from nodes to nodes. -/
def Closed (nodes : List α) (next : α → Option α) : Prop := ∀ p ∈ nodes, ∀ q ∈ next p, q ∈ nodes

def Ranked (rank : α → Nat) (nodes : List α) (next : α → Option α) : Prop :=
  ∀ p ∈ nodes, ∀ q ∈ next p, rank q < rank p

def Acyclic (nodes : List α) (next : α → Option α) : Prop := ∃ rank, Ranked rank nodes next

/-- The chain that starts at a node ends in `l`. -/
inductive EndsIn (next : α → Option α) (l : α) : α → Prop
  | last : next l = none → EndsIn next l l
  | link {p q : α} : next p = some q → EndsIn next l q → EndsIn next l p

/-! ## Where a chain ends -/

theorem endsIn_of_next (hnext : next p = some q) : EndsIn next l p ↔ EndsIn next l q := by
  constructor
  · intro h
    cases h with
    | last hlast => rw [hnext] at hlast; cases hlast
    | link hlink hrest =>
        rw [hnext, Option.some.injEq] at hlink
        exact hlink ▸ hrest
  · exact .link hnext

theorem endsIn_of_next_none (hnext : next p = none) : EndsIn next l p ↔ p = l := by
  constructor
  · intro h
    cases h with
    | last _ => rfl
    | link hlink _ => rw [hnext] at hlink; cases hlink
  · rintro rfl
    exact .last hnext

theorem EndsIn.unique {l' : α} (h : EndsIn next l p) (h' : EndsIn next l' p) : l = l' := by
  induction h with
  | last hlast => exact (endsIn_of_next_none hlast).mp h'
  | link hlink _ ih => exact ih ((endsIn_of_next hlink).mp h')

theorem EndsIn.mem (h : EndsIn next l p) (hclosed : Closed nodes next) (hp : p ∈ nodes) :
    l ∈ nodes := by
  induction h with
  | last _ => exact hp
  | link hlink _ ih => exact ih (hclosed _ hp _ hlink)

/-- Where the chain from `p` ends, when it has at most `n` links. -/
def lastOf (next : α → Option α) : Nat → α → α
  | 0, p => p
  | n + 1, p =>
      match next p with
      | none => p
      | some q => lastOf next n q

theorem endsIn_lastOf {rank : α → Nat} (hclosed : Closed nodes next)
    (hrank : Ranked rank nodes next) :
    ∀ n, ∀ p ∈ nodes, rank p < n →
      next (lastOf next n p) = none ∧ EndsIn next (lastOf next n p) p := by
  intro n
  induction n with
  | zero => intro p _ h; omega
  | succ n ih =>
      intro p hp hn
      cases hnext : next p with
      | none =>
          have hlast : lastOf next (n + 1) p = p := by simp only [lastOf, hnext]
          rw [hlast]
          exact ⟨hnext, .last hnext⟩
      | some q =>
          have hlast : lastOf next (n + 1) p = lastOf next n q := by simp only [lastOf, hnext]
          have hlt := hrank p hp q hnext
          obtain ⟨hnone, hends⟩ := ih q (hclosed p hp q hnext) (by omega)
          rw [hlast]
          exact ⟨hnone, .link hnext hends⟩

theorem Acyclic.anti {nodes' : List α} {next' : α → Option α} (h : Acyclic nodes next)
    (hnodes : ∀ p ∈ nodes', ∀ q ∈ next' p, p ∈ nodes ∧ next p = some q) :
    Acyclic nodes' next' := by
  obtain ⟨rank, hrank⟩ := h
  exact ⟨rank, fun p hp q hq => hrank p (hnodes p hp q hq).1 q (hnodes p hp q hq).2⟩

/-- The nodes from `p` on, `n` of them at most. -/
def chainOf (next : α → Option α) : Nat → α → List α
  | 0, _ => []
  | n + 1, p =>
      p :: match next p with
        | none => []
        | some q => chainOf next n q

theorem chainOf_of_next (n : Nat) (hnext : next p = some q) :
    chainOf next (n + 1) p = p :: chainOf next n q := by
  simp only [chainOf, hnext]

theorem chainOf_of_next_none (n : Nat) (hnext : next p = none) :
    chainOf next (n + 1) p = [p] := by
  simp only [chainOf, hnext]

/-- A chain ends where the chains of its nodes do. -/
theorem EndsIn.of_mem {n : Nat} {x : α} (h : EndsIn next l p) (hx : x ∈ chainOf next n p) :
    EndsIn next l x := by
  induction n generalizing p with
  | zero => cases hx
  | succ n ih =>
      cases hnext : next p with
      | none =>
          rw [chainOf_of_next_none n hnext, List.mem_singleton] at hx
          exact hx ▸ h
      | some q =>
          rw [chainOf_of_next n hnext, List.mem_cons] at hx
          rcases hx with rfl | hx
          · exact h
          · exact ih ((endsIn_of_next hnext).mp h) hx

section

variable {rank : α → Nat} {n : Nat} (hclosed : Closed nodes next) (hrank : Ranked rank nodes next)
include hclosed hrank

theorem rank_le_of_mem_chainOf {x : α} (hp : p ∈ nodes) (hx : x ∈ chainOf next n p) :
    rank x ≤ rank p := by
  induction n generalizing p with
  | zero => cases hx
  | succ n ih =>
      cases hnext : next p with
      | none =>
          rw [chainOf_of_next_none n hnext, List.mem_singleton] at hx
          exact hx ▸ Nat.le_refl _
      | some q =>
          rw [chainOf_of_next n hnext, List.mem_cons] at hx
          rcases hx with rfl | hx
          · exact Nat.le_refl _
          · exact (ih (hclosed p hp q hnext) hx).trans (hrank p hp q hnext).le

theorem next_mem_chainOf {x y : α} (hp : p ∈ nodes) (hn : rank p < n)
    (hx : x ∈ chainOf next n p) (hy : next x = some y) : y ∈ chainOf next n p := by
  induction n generalizing p with
  | zero => cases hx
  | succ n ih =>
      cases hnext : next p with
      | none =>
          rw [chainOf_of_next_none n hnext, List.mem_singleton] at hx
          rw [hx, hnext] at hy
          cases hy
      | some q =>
          have hlt := hrank p hp q hnext
          rw [chainOf_of_next n hnext, List.mem_cons] at hx ⊢
          right
          rcases hx with rfl | hx
          · rw [hnext, Option.some.injEq] at hy
            subst hy
            cases n with
            | zero => omega
            | succ n => exact List.mem_cons_self
          · exact ih (hclosed p hp q hnext) (by omega) hx

theorem lastOf_mem_chainOf (hp : p ∈ nodes) (hn : rank p < n) :
    lastOf next n p ∈ chainOf next n p := by
  induction n generalizing p with
  | zero => omega
  | succ n ih =>
      cases hnext : next p with
      | none =>
          rw [chainOf_of_next_none n hnext, List.mem_singleton]
          simp only [lastOf, hnext]
      | some q =>
          have hlast : lastOf next (n + 1) p = lastOf next n q := by simp only [lastOf, hnext]
          have hlt := hrank p hp q hnext
          rw [chainOf_of_next n hnext, hlast]
          exact List.mem_cons_of_mem _ (ih (hclosed p hp q hnext) (by omega))

end

variable [DecidableEq α]

/-! ## Counting the links -/

/-- How many links lead to `q`. -/
def inLinks (nodes : List α) (next : α → Option α) (q : α) : Nat :=
  nodes.countP fun p => next p = some q

theorem inLinks_congr {next' : α → Option α} (h : ∀ p ∈ nodes, next' p = next p) (q : α) :
    inLinks nodes next' q = inLinks nodes next q :=
  List.countP_congr fun p hp => by rw [h p hp]

theorem inLinks_cons (p : α) (nodes : List α) (next : α → Option α) (q : α) :
    inLinks (p :: nodes) next q = inLinks nodes next q + if next p = some q then 1 else 0 := by
  simp only [inLinks, List.countP_cons, decide_eq_true_eq]

/-- What a node that leaves takes with it. -/
theorem inLinks_erase (hp : p ∈ nodes) (next : α → Option α) (q : α) :
    inLinks nodes next q = inLinks (nodes.erase p) next q + if next p = some q then 1 else 0 := by
  rw [← inLinks_cons]
  exact (List.perm_cons_erase hp).countP_eq _

theorem inLinks_update_of_notMem (hp : p ∉ nodes) (r : Option α) (q : α) :
    inLinks nodes (Function.update next p r) q = inLinks nodes next q :=
  inLinks_congr (fun _ hx => Function.update_of_ne (ne_of_mem_of_not_mem hx hp) _ _) q

/-- A link that is set anew. -/
theorem inLinks_update (hnodup : nodes.Nodup) (hp : p ∈ nodes) (r : Option α) (q : α) :
    inLinks nodes (Function.update next p r) q + (if next p = some q then 1 else 0) =
      inLinks nodes next q + if r = some q then 1 else 0 := by
  have hgone : p ∉ nodes.erase p := hnodup.not_mem_erase
  rw [inLinks_erase hp, inLinks_erase hp next, inLinks_update_of_notMem hgone,
    Function.update_self]
  omega

theorem Closed.inLinks_eq_zero (hclosed : Closed nodes next) (hq : q ∉ nodes) :
    inLinks nodes next q = 0 := by
  rw [inLinks, List.countP_eq_zero]
  intro p hp hlink
  exact hq (hclosed p hp q (decide_eq_true_eq.mp hlink))

theorem inLinks_pos (hp : p ∈ nodes) (hnext : next p = some q) : 0 < inLinks nodes next q :=
  List.countP_pos_iff.mpr ⟨p, hp, decide_eq_true_eq.mpr hnext⟩

/-! ## Chains without a cycle -/

/-- The last node of a chain is linked to a node whose chain ends elsewhere. -/
theorem Acyclic.link (h : Acyclic nodes next) (hlast : next l = none) (ht : ¬ EndsIn next l t) :
    Acyclic nodes (Function.update next l (some t)) := by
  classical
  obtain ⟨rank, hrank⟩ := h
  -- all that now comes before `t` is lifted above it
  refine ⟨fun p => if EndsIn next l p then rank p + (rank t + 1) else rank p, fun p hp q hq => ?_⟩
  rcases eq_or_ne p l with rfl | hne
  · rw [Function.update_self, Option.mem_def, Option.some.injEq] at hq
    subst hq
    dsimp only
    rw [if_neg ht, if_pos (EndsIn.last hlast)]
    omega
  · rw [Function.update_of_ne hne] at hq
    have hlt := hrank p hp q hq
    dsimp only
    rw [if_congr (endsIn_of_next hq) rfl rfl]
    split <;> omega

/-- The rank of a node can be taken to be below their number. -/
theorem Acyclic.exists_bounded (h : Acyclic nodes next) (hclosed : Closed nodes next) :
    ∃ rank, Ranked rank nodes next ∧ ∀ p ∈ nodes, rank p < nodes.length := by
  obtain ⟨rank, hrank⟩ := h
  have hlt : ∀ p ∈ nodes, ∀ n, rank p < n →
      nodes.countP (rank · < rank p) < nodes.countP (rank · < n) := by
    intro p hp n hn
    have hle : (nodes.erase p).countP (rank · < rank p) ≤ (nodes.erase p).countP (rank · < n) :=
      List.countP_mono_left fun x _ hx => by
        rw [decide_eq_true_eq] at hx ⊢
        omega
    rw [(List.perm_cons_erase hp).countP_eq, (List.perm_cons_erase hp).countP_eq,
      List.countP_cons_of_neg (by simp), List.countP_cons_of_pos (by simpa using hn)]
    omega
  refine ⟨fun p => nodes.countP (rank · < rank p), fun p hp q hq => ?_, fun p hp => ?_⟩
  · exact hlt q (hclosed p hp q hq) _ (hrank p hp q hq)
  · exact lt_of_lt_of_le (hlt p hp (rank p + 1) (Nat.lt_succ_self _)) List.countP_le_length

/-- Every chain ends, after fewer links than there are nodes. -/
theorem Acyclic.endsIn_lastOf (h : Acyclic nodes next) (hclosed : Closed nodes next)
    (hp : p ∈ nodes) :
    next (lastOf next nodes.length p) = none ∧ EndsIn next (lastOf next nodes.length p) p := by
  obtain ⟨rank, hrank, hlt⟩ := h.exists_bounded hclosed
  exact Links.endsIn_lastOf hclosed hrank _ p hp (hlt p hp)

/-- Some node is the first of its chain. -/
theorem Acyclic.exists_root (h : Acyclic nodes next) (hne : nodes ≠ []) :
    ∃ p ∈ nodes, inLinks nodes next p = 0 := by
  obtain ⟨rank, hrank⟩ := h
  obtain ⟨a, ha⟩ := List.exists_mem_of_ne_nil nodes hne
  obtain ⟨p, hp, hmax⟩ :=
    Finset.exists_max_image nodes.toFinset rank ⟨a, List.mem_toFinset.mpr ha⟩
  refine ⟨p, List.mem_toFinset.mp hp, List.countP_eq_zero.mpr fun x hx hlink => ?_⟩
  have hlt := hrank x hx p (decide_eq_true_eq.mp hlink)
  have hle := hmax x (List.mem_toFinset.mpr hx)
  omega

end Links
