import NetCamera.Lib.Run

/-!
# NetCamera.KeyPress

How long the key was pressed: the edge interrupt and the part of `key_task` that
decides about the factory reset.

One variable, `timeUse`, is the time of the last press until the key is released,
and then how long it was pressed.  `key_task` reads it up to half a second later,
six times, and an edge may come before each of them.  A press overwrites the
length with the time, and a release without a press counts from whatever is
there.  `Clean` says of an edge that it does not leave a value that is taken for
a long press though there was none; `no_accidental_reset` is about the runs
whose edges are clean, and `safe_iff_clean` says that no other run is safe.

What the reset does to the record and to flash is in `NetCamera.KeyTask`.
-/

namespace NetCamera.KeyPress

open Run

/-! ## The interrupt and the task -/

/-- An edge of the key and the tick it comes at. -/
inductive Edge where
  | press (t : Nat)
  | release (t : Nat)
  deriving DecidableEq, Repr

/-- The tick of an edge. -/
def Edge.time : Edge → Nat
  | .press t => t
  | .release t => t

/-- The comparisons of `timeUse`, in the order of the source. -/
inductive Test where
  | gt0
  | le2000
  | gt2000
  | le5000
  | gt5000
  | lt15000
  deriving DecidableEq, Repr

/-- What a comparison finds. -/
def Test.holds : Test → UInt32 → Bool
  | .gt0, v => v > 0
  | .le2000, v => v ≤ 2000
  | .gt2000, v => v > 2000
  | .le5000, v => v ≤ 5000
  | .gt5000, v => v > 5000
  | .lt15000, v => v < 15000

/-- Where `key_task` stands: in front of `if(keyFlag==1)`, of a comparison, of
`keyPres=k`, of `keyFlag=0`, of `if(keyPres==3)`, of the restore or behind the reset. -/
inductive Pc where
  | poll
  | test (c : Test)
  | assign (k : UInt8)
  | clear
  | check
  | restore
  | reset
  deriving DecidableEq, Repr

/-- The `&&` and `else if` between the comparisons. -/
def Test.next : Test → Bool → Pc
  | .gt0, true => .test .le2000
  | .gt0, false => .test .gt2000
  | .le2000, true => .assign 1
  | .le2000, false => .test .gt2000
  | .gt2000, true => .test .le5000
  | .gt2000, false => .test .gt5000
  | .le5000, true => .assign 2
  | .le5000, false => .test .gt5000
  | .gt5000, true => .test .lt15000
  | .gt5000, false => .assign 0
  | .lt15000, true => .assign 3
  | .lt15000, false => .assign 0

/-- The variables, the edges so far (the last one first), and those there were when `timeUse` was
read last. -/
structure State where
  timeUse : UInt32
  keyFlag : UInt8
  keyPres : UInt8
  pc : Pc
  edges : List Edge
  acted : List Edge
  deriving DecidableEq, Repr

/-- After power-on. -/
def init : State := ⟨0, 0, 0, .poll, [], []⟩

/-- `OSTimeGet` at tick `t`. -/
def OSTimeGet (t : Nat) : UInt32 := UInt32.ofNat t

/-- `HAL_GPIO_EXTI_Callback`. -/
def HAL_GPIO_EXTI_Callback (e : Edge) (s : State) : State :=
  match e with
  | .press t => { s with timeUse := OSTimeGet t, edges := e :: s.edges }
  | .release t =>
    { s with timeUse := OSTimeGet t - s.timeUse, keyFlag := 1, edges := e :: s.edges }

/-- One step of `key_task`; the delay of 500 ms is in front of `poll`. -/
def key_task (s : State) : Option State :=
  match s.pc with
  | .poll => some { s with pc := if s.keyFlag = 1 then .test .gt0 else .poll }
  | .test c => some { s with pc := c.next (c.holds s.timeUse), acted := s.edges }
  | .assign k => some { s with keyPres := k, pc := .clear }
  | .clear => some { s with keyFlag := 0, pc := .check }
  | .check => some { s with pc := if s.keyPres = 3 then .restore else .poll }
  | .restore => some { s with pc := .reset }
  | .reset => none

/-- A step of `key_task` or an edge. -/
inductive Event where
  | key
  | edge (e : Edge)
  deriving DecidableEq, Repr

/-- The tick of the last edge. -/
def lastTick : List Edge → Nat
  | [] => 0
  | e :: _ => e.time

/-- Edges come between any two steps of `key_task`, until the reset, and no edge comes before
the last one. -/
def step (s : State) : Event → Option State
  | .key => key_task s
  | .edge e =>
    if s.pc ≠ .reset ∧ lastTick s.edges ≤ e.time then some (HAL_GPIO_EXTI_Callback e s) else none

/-! ## Long presses -/

/-- The last release ended a press of 5001 to 14999 ticks, with no other edge in between. -/
def Held : List Edge → Prop
  | [] => False
  | .press _ :: es => Held es
  | .release t :: .press t₀ :: _ => t₀ + 5001 ≤ t ∧ t ≤ t₀ + 14999
  | .release _ :: _ => False

instance decidableHeld : (es : List Edge) → Decidable (Held es)
  | [] => .isFalse id
  | .press _ :: es => decidableHeld es
  | .release _ :: .press _ :: _ => inferInstanceAs (Decidable (_ ∧ _))
  | [.release _] => .isFalse id
  | .release _ :: .release _ :: _ => .isFalse id

/-- `key_task` restores and resets only for a long press. -/
def ProperReset (s : State) : Prop := s.pc = .restore ∨ s.pc = .reset → Held s.acted

/-- `key_task` goes on to read `timeUse` as it stands. -/
def Awaited (s : State) : Prop :=
  match s.pc with
  | .poll => s.keyFlag = 1
  | .test _ => True
  | .check => s.keyFlag = 1 ∧ s.keyPres ≠ 3
  | _ => False

instance (s : State) : Decidable (Awaited s) := by
  unfold Awaited
  split <;> infer_instance

/-- The comparisons that are left take the value for a long press. -/
def TakenForLong (s : State) (v : UInt32) : Prop := v < 15000 ∧ (v > 5000 ∨ s.pc = .test .lt15000)

instance (s : State) (v : UInt32) : Decidable (TakenForLong s v) :=
  inferInstanceAs (Decidable (_ ∧ _))

/-- A release at tick `t` ends a press: one of less than 2^32 ticks, and of more than 5000 where
`timeUse>5000` was decided before. -/
def EndsPress (s : State) (t : Nat) : Prop :=
  match s.edges with
  | .press t₀ :: _ => t < t₀ + 4294967296 ∧ (s.pc = .test .lt15000 → t₀ + 5001 ≤ t)
  | _ => False

instance (s : State) (t : Nat) : Decidable (EndsPress s t) := by
  unfold EndsPress
  split <;> infer_instance

/-- The edges that mislead nobody: a press that comes when no release is waiting, or when its
tick is not taken for a long press, or behind a long press; a release that ends a press, or
whose difference is not taken for a long press. -/
def Clean (s : State) : Event → Prop
  | .key => True
  | .edge (.press t) => Awaited s → TakenForLong s (OSTimeGet t) → Held s.edges
  | .edge (.release t) => Awaited { s with keyFlag := 1 } →
      TakenForLong s (OSTimeGet t - s.timeUse) → EndsPress s t

instance (s : State) (e : Event) : Decidable (Clean s e) := by
  unfold Clean
  split <;> infer_instance

/-! ## The invariant -/

/-- `key_task` is on its way to the reset. -/
def Resetting (s : State) : Prop :=
  match s.pc with
  | .assign k => k = 3
  | .clear => s.keyPres = 3
  | .check => s.keyPres = 3
  | .restore => True
  | .reset => True
  | _ => False

/-- Between clean edges, what `timeUse` says can be trusted where it is going to be read. -/
structure Inv (s : State) : Prop where
  pressed : ∀ t es, s.edges = .press t :: es → s.timeUse = OSTimeGet t
  awaited : Awaited s → TakenForLong s s.timeUse → Held s.edges
  resetting : Resetting s → Held s.acted

theorem inv_init : Inv init where
  pressed t es h := by cases h
  awaited h := absurd h (by decide)
  resetting h := h.elim

/-- The difference of two ticks less than 2^32 apart. -/
theorem toNat_OSTimeGet_sub {t t₀ : Nat} (hle : t₀ ≤ t) (hlt : t < t₀ + 4294967296) :
    (OSTimeGet t - OSTimeGet t₀).toNat = t - t₀ := by
  rw [OSTimeGet, OSTimeGet, UInt32.toNat_sub, UInt32.toNat_ofNat', UInt32.toNat_ofNat']
  omega

/-- What a release that ends a press leaves in `timeUse`. -/
theorem toNat_timeUse {s : State} (hinv : Inv s) {t t₀ : Nat} {es : List Edge}
    (hedges : s.edges = .press t₀ :: es) (hle : t₀ ≤ t) (hlt : t < t₀ + 4294967296) :
    (OSTimeGet t - s.timeUse).toNat = t - t₀ := by
  rw [hinv.pressed t₀ es hedges, toNat_OSTimeGet_sub hle hlt]

/-- **Clean edges are those behind which `timeUse` can be trusted.** -/
theorem clean_edge_iff {s : State} (hinv : Inv s) {e : Edge} (hle : lastTick s.edges ≤ e.time) :
    Clean s (.edge e) ↔
      (Awaited (HAL_GPIO_EXTI_Callback e s) →
        TakenForLong (HAL_GPIO_EXTI_Callback e s) (HAL_GPIO_EXTI_Callback e s).timeUse →
        Held (HAL_GPIO_EXTI_Callback e s).edges) := by
  cases e with
  | press t => rfl
  | release t =>
      show (Awaited { s with keyFlag := 1 } → TakenForLong s (OSTimeGet t - s.timeUse) →
        EndsPress s t) ↔ (Awaited { s with keyFlag := 1 } →
        TakenForLong s (OSTimeGet t - s.timeUse) → Held (.release t :: s.edges))
      refine forall_congr' fun _ => forall_congr' fun htaken => ?_
      obtain ⟨hlt, hgt⟩ := htaken
      rw [UInt32.lt_iff_toNat_lt] at hlt
      unfold EndsPress
      split
      · next t₀ es hedges =>
        rw [hedges] at hle ⊢
        have hle' : t₀ ≤ t := hle
        have hnat := toNat_timeUse hinv hedges hle'
        have h15000 : (15000 : UInt32).toNat = 15000 := rfl
        have h5000 : (5000 : UInt32).toNat = 5000 := rfl
        rw [gt_iff_lt, UInt32.lt_iff_toNat_lt] at hgt
        rw [Held]
        constructor
        · intro ⟨hwrap, hlong⟩
          have := hnat hwrap
          grind
        · intro ⟨hlong, hshort⟩
          exact ⟨by omega, fun _ => hlong⟩
      · next hno =>
        refine iff_of_false id fun hheld => ?_
        cases hedges : s.edges with
        | nil => rw [hedges] at hheld; exact hheld
        | cons e es =>
            rw [hedges] at hheld
            cases e with
            | press t₀ => exact hno t₀ es hedges
            | release t' => exact hheld

/-- A clean edge keeps the invariant. -/
theorem inv_edge {s : State} (hinv : Inv s) {e : Edge} (hle : lastTick s.edges ≤ e.time)
    (hclean : Clean s (.edge e)) : Inv (HAL_GPIO_EXTI_Callback e s) where
  pressed := by
    cases e with
    | press t =>
        intro t' es h
        cases h
        rfl
    | release t =>
        intro t' es h
        cases h
  awaited := (clean_edge_iff hinv hle).mp hclean
  resetting := by cases e <;> exact hinv.resetting

/-- The last comparison comes behind `timeUse>5000`. -/
theorem next_eq_lt15000_iff (c : Test) (b : Bool) :
    c.next b = .test .lt15000 ↔ c = .gt5000 ∧ b = true := by
  cases c <;> cases b <;> simp [Test.next]

/-- The reset is decided by the last comparison. -/
theorem resetting_next_iff {s : State} (c : Test) (b : Bool) :
    Resetting { s with pc := c.next b } ↔ c = .lt15000 ∧ b = true := by
  cases c <;> cases b <;> simp [Test.next, Resetting]

/-- A step of `key_task` keeps it. -/
theorem inv_key {s s' : State} (hinv : Inv s) (hstep : key_task s = some s') : Inv s' := by
  obtain ⟨timeUse, keyFlag, keyPres, pc, edges, acted⟩ := s
  obtain ⟨hpressed, hawaited, hresetting⟩ := hinv
  cases pc with
  | poll =>
      cases hstep
      refine ⟨hpressed, ?_, ?_⟩
      · by_cases hflag : keyFlag = 1
        · simpa [Awaited, TakenForLong, hflag] using hawaited
        · simp [Awaited, hflag]
      · by_cases hflag : keyFlag = 1 <;> simp [Resetting, hflag]
  | test c =>
      cases hstep
      refine ⟨hpressed, fun _ htaken => ?_, fun hres => ?_⟩
      · refine hawaited trivial ⟨htaken.1, Or.inl ?_⟩
        cases htaken.2 with
        | inl hgt => exact hgt
        | inr hpc =>
            obtain ⟨rfl, hholds⟩ := (next_eq_lt15000_iff c _).mp hpc
            exact of_decide_eq_true hholds
      · obtain ⟨rfl, hholds⟩ := (resetting_next_iff c _).mp hres
        exact hawaited trivial ⟨of_decide_eq_true hholds, Or.inr rfl⟩
  | assign k =>
      cases hstep
      exact ⟨hpressed, fun h => h.elim, hresetting⟩
  | clear =>
      cases hstep
      exact ⟨hpressed, fun h => absurd h.1 (by decide : (0 : UInt8) ≠ 1), hresetting⟩
  | check =>
      cases hstep
      refine ⟨hpressed, ?_, ?_⟩
      · by_cases hpres : keyPres = 3
        · simp [Awaited, hpres]
        · simpa [Awaited, TakenForLong, hpres] using hawaited
      · by_cases hpres : keyPres = 3
        · simpa [Resetting, hpres] using hresetting
        · simp [Resetting, hpres]
  | restore =>
      cases hstep
      exact ⟨hpressed, fun h => h.elim, hresetting⟩
  | reset => cases hstep

theorem inv_step {s s' : State} {e : Event} (hinv : Inv s) (hclean : Clean s e)
    (hstep : step s e = some s') : Inv s' := by
  cases e with
  | key => exact inv_key hinv hstep
  | edge e =>
      simp only [step, Option.ite_none_right_eq_some, Option.some.injEq] at hstep
      rw [← hstep.2]
      exact inv_edge hinv hstep.1.2 hclean

theorem Inv.properReset {s : State} (hinv : Inv s) : ProperReset s := by
  intro h
  refine hinv.resetting ?_
  unfold Resetting
  cases h with
  | inl hpc => simp [hpc]
  | inr hpc => simp [hpc]

/-- **No accidental factory reset** in a run of clean edges. -/
theorem no_accidental_reset {es : List Event} (hclean : Steps step Clean init es) :
    Along step ProperReset init es :=
  (along_of_steps (fun _ _ _ => inv_step) inv_init hclean).mono fun _ => Inv.properReset

/-- A press of six seconds. -/
theorem no_accidental_reset_held :
    Along step ProperReset init
      (.edge (.press 1000) :: .edge (.release 7000) :: List.replicate 11 .key) :=
  no_accidental_reset (by decide +kernel)

/-- A release six seconds after power-on with no press before, and a short press with another
one behind it before `key_task` looks: both end in the reset. -/
theorem reset_without_long_press :
    (∃ s, run step init (.edge (.release 6000) :: List.replicate 11 .key) = some s ∧
      s.pc = .reset ∧ ¬ ProperReset s) ∧
    ∃ s, run step init (.edge (.press 5900) :: .edge (.release 6000) :: .edge (.press 6200) ::
      List.replicate 11 .key) = some s ∧ s.pc = .reset ∧ ¬ ProperReset s :=
  ⟨⟨_, rfl, rfl, fun h => absurd (h (Or.inr rfl)) (by decide)⟩,
    ⟨_, rfl, rfl, fun h => absurd (h (Or.inr rfl)) (by decide)⟩⟩

/-! ## Runs that are safe -/

/-- Whatever `key_task` does from here on without another edge, it resets for long presses only. -/
def Safe (s : State) : Prop :=
  ∀ es t, RunBy step (fun _ e => e = .key) s es t → ProperReset t

theorem Inv.safe {s : State} (hinv : Inv s) : Safe s := by
  intro es t hrun
  refine (hrun.invariant (fun s e s' hI he hstep => ?_) hinv).properReset
  subst he
  exact inv_key hI hstep

/-- A value that every comparison takes for a long press. -/
structure Long (es : List Edge) (s : State) : Prop where
  gt : s.timeUse > 5000
  lt : s.timeUse < 15000
  edges : s.edges = es

section alone

variable {es : List Edge}

/-- `key_task` left alone gets from `P` to `P'`. -/
abbrev KeyLeads : (State → Prop) → (State → Prop) → Prop := Leads step fun _ e => e = .key

theorem keyLeads_of_step {P P' : State → Prop} (h : ∀ s, P s → ∃ s', key_task s = some s' ∧ P' s') :
    KeyLeads P P' :=
  Leads.of_step fun s hs =>
    have ⟨s', hstep, hs'⟩ := h s hs
    ⟨.key, s', rfl, hstep, hs'⟩

theorem key_task_test {s : State} {c : Test} (h : s.pc = .test c) : key_task s =
    some { s with pc := c.next (c.holds s.timeUse), acted := s.edges } := by
  simp only [key_task, h]

/-- The last comparison decides. -/
theorem leads_of_lt15000 :
    KeyLeads (fun s => s.pc = .test .lt15000 ∧ s.timeUse < 15000 ∧ s.edges = es)
      (fun s => s.pc = .restore ∧ s.acted = es) := by
  have hassign : KeyLeads (fun s => s.pc = .test .lt15000 ∧ s.timeUse < 15000 ∧ s.edges = es)
      (fun s => s.pc = .assign 3 ∧ s.acted = es) :=
    keyLeads_of_step fun s ⟨hpc, hlt, hes⟩ =>
      ⟨_, key_task_test hpc, by simp [Test.next, Test.holds, hlt], hes⟩
  have hclear : KeyLeads (fun s => s.pc = .assign 3 ∧ s.acted = es)
      (fun s => s.pc = .clear ∧ s.keyPres = 3 ∧ s.acted = es) :=
    keyLeads_of_step fun s ⟨hpc, hes⟩ =>
      ⟨{ s with keyPres := 3, pc := .clear }, by simp only [key_task, hpc], rfl, rfl, hes⟩
  have hcheck : KeyLeads (fun s => s.pc = .clear ∧ s.keyPres = 3 ∧ s.acted = es)
      (fun s => s.pc = .check ∧ s.keyPres = 3 ∧ s.acted = es) :=
    keyLeads_of_step fun s ⟨hpc, hpres, hes⟩ =>
      ⟨{ s with keyFlag := 0, pc := .check }, by simp only [key_task, hpc], rfl, hpres, hes⟩
  have hrestore : KeyLeads (fun s => s.pc = .check ∧ s.keyPres = 3 ∧ s.acted = es)
      (fun s => s.pc = .restore ∧ s.acted = es) :=
    keyLeads_of_step fun s ⟨hpc, hpres, hes⟩ =>
      ⟨{ s with pc := .restore }, by simp only [key_task, hpc, hpres, if_true], rfl, hes⟩
  exact hassign.trans (hclear.trans (hcheck.trans hrestore))

/-- The comparisons that a long value passes. -/
def Test.passes : Test → Bool
  | .gt0 => true
  | .le2000 => false
  | .gt2000 => true
  | .le5000 => false
  | .gt5000 => true
  | .lt15000 => true

theorem holds_of_long {s : State} (h : Long es s) (c : Test) : c.holds s.timeUse = c.passes := by
  have hgt := h.gt
  have hlt := h.lt
  rw [gt_iff_lt, UInt32.lt_iff_toNat_lt] at hgt
  rw [UInt32.lt_iff_toNat_lt] at hlt
  cases c <;>
    simp [Test.holds, Test.passes, UInt32.lt_iff_toNat_lt, UInt32.le_iff_toNat_le] at * <;>
    omega

/-- One comparison after the other lets a long value pass. -/
theorem leads_next {c c' : Test} (hnext : c.next c.passes = .test c') :
    KeyLeads (fun s => s.pc = .test c ∧ Long es s) (fun s => s.pc = .test c' ∧ Long es s) :=
  keyLeads_of_step fun s ⟨hpc, hlong⟩ =>
    ⟨_, key_task_test hpc, by rw [holds_of_long hlong, hnext], hlong.gt, hlong.lt, hlong.edges⟩

/-- So it ends in the reset wherever `key_task` stands among them. -/
theorem leads_of_test (c : Test) :
    KeyLeads (fun s => s.pc = .test c ∧ Long es s) (fun s => s.pc = .restore ∧ s.acted = es) := by
  have hlt15000 : KeyLeads (fun s => s.pc = .test .lt15000 ∧ Long es s)
      (fun s => s.pc = .restore ∧ s.acted = es) :=
    (Leads.of_imp fun s ⟨hpc, hlong⟩ => ⟨hpc, hlong.lt, hlong.edges⟩).trans leads_of_lt15000
  have hgt5000 := (leads_next (c := .gt5000) rfl).trans hlt15000
  have hle5000 := (leads_next (c := .le5000) rfl).trans hgt5000
  have hgt2000 := (leads_next (c := .gt2000) rfl).trans hle5000
  have hle2000 := (leads_next (c := .le2000) rfl).trans hgt2000
  cases c with
  | gt0 => exact (leads_next rfl).trans hle2000
  | le2000 => exact hle2000
  | gt2000 => exact hgt2000
  | le5000 => exact hle5000
  | gt5000 => exact hgt5000
  | lt15000 => exact hlt15000

/-- A value that is going to be read and is taken for a long press leads to the reset. -/
theorem leads_of_awaited :
    KeyLeads (fun s => Awaited s ∧ TakenForLong s s.timeUse ∧ s.edges = es)
      (fun s => s.pc = .restore ∧ s.acted = es) := by
  have hpoll : KeyLeads (fun s => s.pc = .poll ∧ s.keyFlag = 1 ∧ Long es s)
      (fun s => s.pc = .restore ∧ s.acted = es) :=
    (keyLeads_of_step fun s ⟨hpc, hflag, hlong⟩ =>
      ⟨{ s with pc := .test .gt0 }, by simp only [key_task, hpc, hflag, if_true], rfl, hlong.gt,
        hlong.lt, hlong.edges⟩).trans (leads_of_test .gt0)
  have hcheck : KeyLeads (fun s => s.pc = .check ∧ (s.keyFlag = 1 ∧ s.keyPres ≠ 3) ∧ Long es s)
      (fun s => s.pc = .restore ∧ s.acted = es) :=
    (keyLeads_of_step fun s ⟨hpc, ⟨hflag, hpres⟩, hlong⟩ =>
      ⟨{ s with pc := .poll }, by simp only [key_task, hpc, hpres, if_false], rfl, hflag, hlong.gt,
        hlong.lt, hlong.edges⟩).trans hpoll
  intro s ⟨hawaited, ⟨hlt, hgt⟩, hedges⟩
  have hlong : s.pc ≠ .test .lt15000 → Long es s := fun hpc =>
    ⟨hgt.resolve_right hpc, hlt, hedges⟩
  unfold Awaited at hawaited
  split at hawaited
  · next hpc => exact hpoll s ⟨hpc, hawaited, hlong (by simp [hpc])⟩
  · next c hpc =>
    by_cases hc : c = .lt15000
    · exact leads_of_lt15000 s ⟨hc ▸ hpc, hlt, hedges⟩
    · exact leads_of_test c s ⟨hpc, hlong (by simp [hpc, hc])⟩
  · next hpc => exact hcheck s ⟨hpc, hawaited, hlong (by simp [hpc])⟩
  · cases hawaited

end alone

/-- An edge that is not clean misleads: without another edge the reset follows. -/
theorem not_safe_of_not_clean {s s' : State} {e : Event} (hinv : Inv s) (hclean : ¬ Clean s e)
    (hstep : step s e = some s') : ¬ Safe s' := by
  cases e with
  | key => exact absurd trivial hclean
  | edge e =>
      simp only [step, Option.ite_none_right_eq_some, Option.some.injEq] at hstep
      rw [clean_edge_iff hinv hstep.1.2, hstep.2] at hclean
      obtain ⟨hawaited, hmislead⟩ := Classical.not_imp.mp hclean
      obtain ⟨htaken, hheld⟩ := Classical.not_imp.mp hmislead
      obtain ⟨es, t, hrun, hpc, hacted⟩ := leads_of_awaited s' ⟨hawaited, htaken, rfl⟩
      intro hsafe
      exact hheld (hacted ▸ hsafe es t hrun (Or.inl hpc))

/-- **A run is safe exactly when all its edges are clean.** -/
theorem safe_iff_clean {s : State} {es : List Event} (hrun : run step init es = some s) :
    Along step Safe init es ↔ Steps step Clean init es :=
  along_iff_steps (fun _ _ _ => inv_step) (fun _ => Inv.safe) (fun _ _ _ => not_safe_of_not_clean)
    inv_init hrun

end NetCamera.KeyPress
