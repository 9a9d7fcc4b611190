/-!
# Run

Runs of a partial step function over a list of events.

A machine is a function `step : σ → ε → Option σ`: the state after an event, or
`none` where the event cannot happen.  `run` folds it over an event list.  Two
predicates speak about a whole run rather than its end:

* `Along step P s es` -- every state the run visits satisfies `P`;
* `Steps step Q s es` -- every step the run takes satisfies `Q` (a predicate of
  the state before the step and of the event).

The rules below derive one from the other, so a safety proof is a step lemma
plus one rule; `Leads` is for the other kind of statement, that a run gets
somewhere, and `trace` for what is seen on the way.  What a fold over the events
leaves in a component is given by the event that set it last (`foldl_last`).
Nothing here knows which machine is run.
-/

namespace Run

variable {σ ε α β μ : Type}

/-- The state a run over `es` ends in; `none` when some event cannot happen. -/
def run (step : σ → ε → Option σ) : σ → List ε → Option σ
  | s, [] => some s
  | s, e :: es => (step s e).bind fun s' => run step s' es

/-- Every state the run over `es` visits, the first one included, satisfies `P`. -/
def Along (step : σ → ε → Option σ) (P : σ → Prop) : σ → List ε → Prop
  | s, [] => P s
  | s, e :: es => P s ∧ ∀ s', step s e = some s' → Along step P s' es

/-- Every step the run over `es` takes satisfies `Q`. -/
def Steps (step : σ → ε → Option σ) (Q : σ → ε → Prop) : σ → List ε → Prop
  | _, [] => True
  | s, e :: es => Q s e ∧ ∀ s', step s e = some s' → Steps step Q s' es

variable {step : σ → ε → Option σ}

instance decidableSteps {Q : σ → ε → Prop} [∀ s e, Decidable (Q s e)] :
    (s : σ) → (es : List ε) → Decidable (Steps step Q s es)
  | _, [] => .isTrue trivial
  | s, e :: es =>
    match h : step s e with
    | none => decidable_of_iff (Q s e) ⟨fun hQ => ⟨hQ, fun s' hs' => by simp [h] at hs'⟩, And.left⟩
    | some t =>
      have := decidableSteps (Q := Q) t es
      decidable_of_iff (Q s e ∧ Steps step Q t es)
        ⟨fun hQ => ⟨hQ.1, fun s' hs' => Option.some.inj (h.symm.trans hs') ▸ hQ.2⟩,
          fun hQ => ⟨hQ.1, hQ.2 t h⟩⟩

/-! ## Composing runs -/

@[simp] theorem run_nil (s : σ) : run step s [] = some s := rfl

theorem run_cons (s : σ) (e : ε) (es : List ε) :
    run step s (e :: es) = (step s e).bind fun s' => run step s' es := rfl

/-- A nonempty run is its first step followed by the rest. -/
theorem run_cons_eq_some {s s' : σ} {e : ε} {es : List ε} :
    run step s (e :: es) = some s' ↔ ∃ t, step s e = some t ∧ run step t es = some s' := by
  rw [run_cons, Option.bind_eq_some_iff]

/-- Runs compose. -/
theorem run_append (s : σ) (es fs : List ε) :
    run step s (es ++ fs) = (run step s es).bind fun s' => run step s' fs := by
  induction es generalizing s with
  | nil => simp
  | cons e es ih =>
      rw [List.cons_append, run_cons, run_cons]
      cases step s e with
      | none => simp
      | some t => simpa using ih t

/-- A run, a step and a run, one behind the other, and what was computed from the states
in between. -/
theorem exists_of_stretches {s₀ : σ} {es fs : List ε} {e : ε} {k : σ → σ → σ → β} {d : β}
    (h : ((run step s₀ es).bind fun s => (step s e).bind fun s₁ =>
      (run step s₁ fs).map fun s₂ => k s s₁ s₂) = some d) :
    ∃ s s₁ s₂, run step s₀ es = some s ∧ step s e = some s₁ ∧ run step s₁ fs = some s₂ ∧
      k s s₁ s₂ = d := by
  obtain ⟨s, hs, h⟩ := Option.bind_eq_some_iff.mp h
  obtain ⟨s₁, hs₁, h⟩ := Option.bind_eq_some_iff.mp h
  obtain ⟨s₂, hs₂, h⟩ := Option.map_eq_some_iff.mp h
  exact ⟨s, s₁, s₂, hs, hs₁, hs₂, h⟩

/-- The first state of a run is one of those it visits. -/
theorem Along.head {P : σ → Prop} {s : σ} {es : List ε} (h : Along step P s es) : P s := by
  cases es with
  | nil => exact h
  | cons e es => exact h.1

/-- The last state of a run is one of those it visits. -/
theorem Along.last {P : σ → Prop} {s s' : σ} {es : List ε} (h : Along step P s es)
    (hrun : run step s es = some s') : P s' := by
  induction es generalizing s with
  | nil =>
      have hs : s = s' := Option.some.inj hrun
      exact hs ▸ h
  | cons e es ih =>
      obtain ⟨t, ht, hrest⟩ := run_cons_eq_some.mp hrun
      exact ih (h.2 t ht) hrest

/-- The steps after a prefix of the run are steps of the run. -/
theorem Steps.of_append {Q : σ → ε → Prop} {s t : σ} {es fs : List ε}
    (h : Steps step Q s (es ++ fs)) (hrun : run step s es = some t) : Steps step Q t fs := by
  induction es generalizing s with
  | nil =>
      have hs : s = t := Option.some.inj hrun
      exact hs ▸ h
  | cons e es ih =>
      obtain ⟨u, hu, hrest⟩ := run_cons_eq_some.mp hrun
      exact ih (h.2 u hu) hrest

/-! ## Invariants -/

/-- An invariant that every step keeps holds of the state a run ends in. -/
theorem run_invariant {I : σ → Prop} (hstep : ∀ s e s', I s → step s e = some s' → I s')
    {s s' : σ} {es : List ε} (h0 : I s) (hrun : run step s es = some s') : I s' := by
  induction es generalizing s with
  | nil =>
      have hs : s = s' := Option.some.inj hrun
      exact hs ▸ h0
  | cons e es ih =>
      obtain ⟨t, ht, hrest⟩ := run_cons_eq_some.mp hrun
      exact ih (hstep s e t h0 ht) hrest

theorem Along.mono {P P' : σ → Prop} (hP : ∀ s, P s → P' s) {s : σ} {es : List ε}
    (h : Along step P s es) : Along step P' s es := by
  induction es generalizing s with
  | nil => exact hP s h
  | cons e es ih => exact ⟨hP s h.1, fun t ht => ih (h.2 t ht)⟩

/-- An invariant that the steps satisfying `Q` keep holds all along a run whose
steps all satisfy `Q`. -/
theorem along_of_steps {I : σ → Prop} {Q : σ → ε → Prop}
    (hstep : ∀ s e s', I s → Q s e → step s e = some s' → I s')
    {s : σ} {es : List ε} (h0 : I s) (hQ : Steps step Q s es) : Along step I s es := by
  induction es generalizing s with
  | nil => exact h0
  | cons e es ih => exact ⟨h0, fun t ht => ih (hstep s e t h0 hQ.1 ht) (hQ.2 t ht)⟩

/-- What the invariant says of a `Q`-step holds of every step of a run whose steps all
satisfy `Q`. -/
theorem steps_of_steps {I : σ → Prop} {Q R : σ → ε → Prop}
    (hstep : ∀ s e s', I s → Q s e → step s e = some s' → I s')
    (hR : ∀ s e, I s → Q s e → R s e)
    {s : σ} {es : List ε} (h0 : I s) (hQ : Steps step Q s es) : Steps step R s es := by
  induction es generalizing s with
  | nil => trivial
  | cons e es ih => exact ⟨hR s e h0 hQ.1, fun t ht => ih (hstep s e t h0 hQ.1 ht) (hQ.2 t ht)⟩

/-- What an invariant says of a step holds of every step of a run. -/
theorem steps_of_invariant {I : σ → Prop} {R : σ → ε → Prop}
    (hstep : ∀ s e s', I s → step s e = some s' → I s') (hR : ∀ s e, I s → R s e)
    {s : σ} {es : List ε} (h0 : I s) : Steps step R s es := by
  induction es generalizing s with
  | nil => trivial
  | cons e es ih => exact ⟨hR s e h0, fun t ht => ih (hstep s e t h0 ht)⟩

/-- The converse: where a step that breaks `Q` always leads to a state that
breaks `P`, a run that visits only `P`-states takes only `Q`-steps. -/
theorem steps_of_along {I P : σ → Prop} {Q : σ → ε → Prop}
    (hstep : ∀ s e s', I s → Q s e → step s e = some s' → I s')
    (hbreak : ∀ s e s', I s → ¬ Q s e → step s e = some s' → ¬ P s')
    {s s' : σ} {es : List ε} (h0 : I s) (hrun : run step s es = some s')
    (hP : Along step P s es) : Steps step Q s es := by
  induction es generalizing s with
  | nil => trivial
  | cons e es ih =>
      obtain ⟨t, ht, hrest⟩ := run_cons_eq_some.mp hrun
      have hQ : Q s e := by
        by_cases hq : Q s e
        · exact hq
        · exact absurd (hP.2 t ht).head (hbreak s e t h0 hq ht)
      refine ⟨hQ, fun t' ht' => ?_⟩
      have htt : t = t' := Option.some.inj (ht.symm.trans ht')
      subst htt
      exact ih (hstep s e t h0 hQ ht) hrest (hP.2 t ht)

/-- **Exact run condition**: when `Q`-steps keep `I`, `I` gives `P`, and any other
step leads straight out of `P`, a run stays in `P` exactly when all its steps
satisfy `Q`. -/
theorem along_iff_steps {I P : σ → Prop} {Q : σ → ε → Prop}
    (hstep : ∀ s e s', I s → Q s e → step s e = some s' → I s')
    (hIP : ∀ s, I s → P s)
    (hbreak : ∀ s e s', I s → ¬ Q s e → step s e = some s' → ¬ P s')
    {s s' : σ} {es : List ε} (h0 : I s) (hrun : run step s es = some s') :
    Along step P s es ↔ Steps step Q s es :=
  ⟨steps_of_along hstep hbreak h0 hrun, fun hQ => (along_of_steps hstep h0 hQ).mono hIP⟩

/-- A condition on the events alone holds of the steps of a run exactly when it
holds of its events. -/
theorem steps_iff_forall_mem {Q : ε → Prop} {s s' : σ} {es : List ε}
    (hrun : run step s es = some s') :
    Steps step (fun _ e => Q e) s es ↔ ∀ e ∈ es, Q e := by
  induction es generalizing s with
  | nil => exact ⟨fun _ e he => absurd he List.not_mem_nil, fun _ => trivial⟩
  | cons e es ih =>
      obtain ⟨t, ht, hrest⟩ := run_cons_eq_some.mp hrun
      rw [List.forall_mem_cons]
      constructor
      · intro h
        exact ⟨h.1, (ih hrest).mp (h.2 t ht)⟩
      · intro h
        refine ⟨h.1, fun t' ht' => ?_⟩
        have htt : t = t' := Option.some.inj (ht.symm.trans ht')
        subst htt
        exact (ih hrest).mpr h.2

/-! ## Runs by some steps only -/

/-- A run from `s` to `t` whose steps all satisfy `Q`. -/
structure RunBy (step : σ → ε → Option σ) (Q : σ → ε → Prop) (s : σ) (es : List ε) (t : σ) :
    Prop where
  run : run step s es = some t
  steps : Steps step Q s es

theorem RunBy.refl (Q : σ → ε → Prop) (s : σ) : RunBy step Q s [] s := ⟨rfl, trivial⟩

theorem runBy_nil {Q : σ → ε → Prop} {s t : σ} (h : RunBy step Q s [] t) : s = t :=
  Option.some.inj h.run

/-- A nonempty run is its first step followed by the rest. -/
theorem runBy_cons {Q : σ → ε → Prop} {s t : σ} {e : ε} {es : List ε} :
    RunBy step Q s (e :: es) t ↔ Q s e ∧ ∃ s', step s e = some s' ∧ RunBy step Q s' es t := by
  constructor
  · intro h
    obtain ⟨s', hstep, hrun⟩ := run_cons_eq_some.mp h.run
    exact ⟨h.steps.1, s', hstep, hrun, h.steps.2 s' hstep⟩
  · rintro ⟨hQ, s', hstep, h⟩
    refine ⟨run_cons_eq_some.mpr ⟨s', hstep, h.run⟩, hQ, fun s'' hstep'' => ?_⟩
    rw [hstep] at hstep''
    exact Option.some.inj hstep'' ▸ h.steps

/-- Every run is one by arbitrary steps. -/
theorem runBy_of_run {s s' : σ} {es : List ε} (hrun : run step s es = some s') :
    RunBy step (fun _ _ => True) s es s' :=
  ⟨hrun, (steps_iff_forall_mem (Q := fun _ => True) hrun).mpr fun _ _ => trivial⟩

/-- An invariant of the `Q`-steps holds of the state a run by them ends in. -/
theorem RunBy.invariant {I : σ → Prop} {Q : σ → ε → Prop} {s t : σ} {es : List ε}
    (h : RunBy step Q s es t) (hstep : ∀ s e s', I s → Q s e → step s e = some s' → I s')
    (h0 : I s) : I t :=
  (along_of_steps hstep h0 h.steps).last h.run

theorem RunBy.trans {Q : σ → ε → Prop} {s t u : σ} {es fs : List ε} (h : RunBy step Q s es t)
    (h' : RunBy step Q t fs u) : RunBy step Q s (es ++ fs) u := by
  induction es generalizing s with
  | nil => exact runBy_nil h ▸ h'
  | cons e es ih =>
      obtain ⟨hQ, s', hstep, hrest⟩ := runBy_cons.mp h
      exact runBy_cons.mpr ⟨hQ, s', hstep, ih hrest⟩

/-- **Exact end condition**: when `Q`-steps keep `I`, any other step leads from `I`
into `B`, and no step leaves `B`, a run by `R`-steps ends in `I` or in `B`
according to whether all its steps satisfy `Q`. -/
theorem RunBy.last_iff {I B : σ → Prop} {Q R : σ → ε → Prop}
    (hstep : ∀ s e s', I s → R s e → Q s e → step s e = some s' → I s')
    (hbreak : ∀ s e s', I s → R s e → ¬ Q s e → step s e = some s' → B s')
    (hstay : ∀ s e s', B s → R s e → step s e = some s' → B s')
    {s s' : σ} {es : List ε} (h0 : I s) (hrun : RunBy step R s es s') :
    (Steps step Q s es → I s') ∧ (¬ Steps step Q s es → B s') := by
  induction es generalizing s with
  | nil =>
      have hs := runBy_nil hrun
      exact ⟨fun _ => hs ▸ h0, fun h => absurd trivial h⟩
  | cons e es ih =>
      obtain ⟨hr, t, ht, hrest⟩ := runBy_cons.mp hrun
      have huniq : ∀ t', step s e = some t' → t' = t := fun t' ht' =>
        Option.some.inj (ht'.symm.trans ht)
      by_cases hq : Q s e
      · obtain ⟨hgood, hbad⟩ := ih (hstep s e t h0 hr hq ht) hrest
        refine ⟨fun h => hgood (h.2 t ht), fun h => hbad fun hsteps => h ⟨hq, fun t' ht' => ?_⟩⟩
        rw [huniq t' ht']
        exact hsteps
      · refine ⟨fun h => absurd h.1 hq, fun _ => ?_⟩
        exact hrest.invariant hstay (hbreak s e t h0 hr hq ht)

/-- The same for all runs. -/
theorem last_iff_steps {I B : σ → Prop} {Q : σ → ε → Prop}
    (hstep : ∀ s e s', I s → Q s e → step s e = some s' → I s')
    (hbreak : ∀ s e s', I s → ¬ Q s e → step s e = some s' → B s')
    (hstay : ∀ s e s', B s → step s e = some s' → B s')
    {s s' : σ} {es : List ε} (h0 : I s) (hrun : run step s es = some s') :
    (Steps step Q s es → I s') ∧ (¬ Steps step Q s es → B s') :=
  RunBy.last_iff (fun s e s' hI _ => hstep s e s' hI) (fun s e s' hI _ => hbreak s e s' hI)
    (fun s e s' hB _ => hstay s e s' hB) h0 (runBy_of_run hrun)

/-- From every state with `P` some run by `Q`-steps gets to one with `P'`. -/
def Leads (step : σ → ε → Option σ) (Q : σ → ε → Prop) (P P' : σ → Prop) : Prop :=
  ∀ s, P s → ∃ es t, RunBy step Q s es t ∧ P' t

theorem Leads.trans {Q : σ → ε → Prop} {P P' P'' : σ → Prop} (h : Leads step Q P P')
    (h' : Leads step Q P' P'') : Leads step Q P P'' := by
  intro s hs
  obtain ⟨es, t, hrun, ht⟩ := h s hs
  obtain ⟨fs, u, hrun', hu⟩ := h' t ht
  exact ⟨es ++ fs, u, hrun.trans hrun', hu⟩

theorem Leads.of_step {Q : σ → ε → Prop} {P P' : σ → Prop}
    (h : ∀ s, P s → ∃ e s', Q s e ∧ step s e = some s' ∧ P' s') : Leads step Q P P' := by
  intro s hs
  obtain ⟨e, s', hQ, hstep, hs'⟩ := h s hs
  exact ⟨[e], s', runBy_cons.mpr ⟨hQ, s', hstep, .refl Q s'⟩, hs'⟩

theorem Leads.of_imp {Q : σ → ε → Prop} {P P' : σ → Prop} (h : ∀ s, P s → P' s) :
    Leads step Q P P' :=
  fun s hs => ⟨[], s, .refl Q s, h s hs⟩

/-! ## Refinement -/

/-- **Refinement**: when each `Q`-step moves the abstraction `abs` by the abstract
events `proj e`, a run by `Q`-steps moves it by all of them in order. -/
theorem RunBy.refines {I : σ → Prop} {Q : σ → ε → Prop} {abs : σ → α} {proj : ε → List μ}
    {astep : α → μ → α}
    (hstep : ∀ s e s', I s → Q s e → step s e = some s' →
      I s' ∧ abs s' = (proj e).foldl astep (abs s))
    {s s' : σ} {es : List ε} (h0 : I s) (hrun : RunBy step Q s es s') :
    I s' ∧ abs s' = (es.flatMap proj).foldl astep (abs s) := by
  induction es generalizing s with
  | nil =>
      have hs := runBy_nil hrun
      subst hs
      exact ⟨h0, rfl⟩
  | cons e es ih =>
      obtain ⟨hQ, t, ht, hrest⟩ := runBy_cons.mp hrun
      obtain ⟨hI, habs⟩ := hstep s e t h0 hQ ht
      obtain ⟨hI', habs'⟩ := ih hI hrest
      refine ⟨hI', ?_⟩
      rw [habs', habs, List.flatMap_cons, List.foldl_append]

/-- The same for all runs. -/
theorem run_refines {I : σ → Prop} {abs : σ → α} {proj : ε → List μ} {astep : α → μ → α}
    (hstep : ∀ s e s', I s → step s e = some s' →
      I s' ∧ abs s' = (proj e).foldl astep (abs s))
    {s s' : σ} {es : List ε} (h0 : I s) (hrun : run step s es = some s') :
    I s' ∧ abs s' = (es.flatMap proj).foldl astep (abs s) :=
  RunBy.refines (fun s e s' hI _ => hstep s e s' hI) h0 (runBy_of_run hrun)

/-! ## What a run shows -/

/-- What is seen of a run, step after step. -/
def trace (step : σ → ε → Option σ) (obs : σ → ε → List β) : σ → List ε → List β
  | _, [] => []
  | s, e :: es => obs s e ++ (step s e).elim [] fun s' => trace step obs s' es

/-- **Ledger rule**: a relation between the state and all that was seen so far, which every step
keeps, holds at the end of every run. -/
theorem RunBy.ledger {obs : σ → ε → List β} {I : σ → Prop} {L : σ → List β → Prop}
    {Q : σ → ε → Prop} {s s' : σ} {es : List ε} {os : List β} (hrun : RunBy step Q s es s')
    (hstep : ∀ s e s' os, I s → L s os → Q s e → step s e = some s' →
      I s' ∧ L s' (os ++ obs s e))
    (h0 : I s) (hL : L s os) : I s' ∧ L s' (os ++ trace step obs s es) := by
  induction es generalizing s os with
  | nil =>
      obtain rfl := runBy_nil hrun
      rw [trace, List.append_nil]
      exact ⟨h0, hL⟩
  | cons e es ih =>
      obtain ⟨hQ, t, ht, hrest⟩ := runBy_cons.mp hrun
      obtain ⟨hI, hL'⟩ := hstep s e t os h0 hL hQ ht
      rw [trace, ht, Option.elim_some, ← List.append_assoc]
      exact ih hrest hI hL'

/-- The ledger rule for runs of every kind. -/
theorem run_ledger {obs : σ → ε → List β} {I : σ → Prop} {L : σ → List β → Prop}
    (hstep : ∀ s e s' os, I s → L s os → step s e = some s' → I s' ∧ L s' (os ++ obs s e))
    {s s' : σ} {es : List ε} {os : List β} (h0 : I s) (hL : L s os)
    (hrun : run step s es = some s') : I s' ∧ L s' (os ++ trace step obs s es) :=
  RunBy.ledger (runBy_of_run hrun) (fun s e s' os hI hL' _ => hstep s e s' os hI hL') h0 hL

/-! ## What was chosen last -/

/-- The last choice of `sel` in a list. -/
def last (sel : ε → Option β) (es : List ε) : Option β := (es.filterMap sel).getLast?

/-- The last choice is one of an event. -/
theorem exists_of_last {sel : ε → Option β} {es : List ε} {b : β} (h : last sel es = some b) :
    ∃ e ∈ es, sel e = some b :=
  List.mem_filterMap.mp (List.mem_of_getLast? h)

/-- No choice was last when none was made. -/
theorem last_eq_none {sel : ε → Option β} {es : List ε} :
    last sel es = none ↔ ∀ e ∈ es, sel e = none := by
  rw [last, List.getLast?_eq_none_iff, List.filterMap_eq_nil_iff]

/-- Of choices that are filtered the last one is kept when it passes. -/
theorem last_filter {sel : ε → Option β} {p : β → Bool} {es : List ε} {b : β}
    (h : last sel es = some b) (hb : p b = true) :
    last (fun e => (sel e).filter p) es = some b := by
  obtain ⟨bs, hbs⟩ := List.getLast?_eq_some_iff.mp h
  have hfilter : es.filterMap (fun e => (sel e).filter p) = (es.filterMap sel).filter p := by
    rw [List.filter_filterMap]
  rw [last, hfilter, hbs, List.filter_append, List.filter_cons, if_pos hb]
  exact List.getLast?_concat

/-- What every event either sets, to a value of its own, or leaves is set by the last
event that does. -/
theorem foldl_last {f : α → ε → α} {π : α → μ} {sel : ε → Option β} {g : β → μ}
    (h : ∀ a e, π (f a e) = ((sel e).map g).getD (π a)) (es : List ε) (a : α) :
    π (es.foldl f a) = ((last sel es).map g).getD (π a) := by
  induction es generalizing a with
  | nil => rfl
  | cons e es ih =>
      rw [List.foldl_cons, ih, h, last, last, List.filterMap_cons]
      cases sel e with
      | none => rfl
      | some b =>
          simp only [List.getLast?_cons, Option.map_some, Option.getD_some]
          cases (es.filterMap sel).getLast? <;> rfl

end Run
