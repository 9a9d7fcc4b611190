import NetCamera.Rtos.Services

/-!
# NetCamera.Rtos.Invariant

What holds in every state the kernel can reach.

* Each task (`TaskOk`): it is on the ready list exactly when its status is `OS_STAT_RDY` and no
  delay runs, and on a wait list exactly while it is in a pend that was neither served nor
  given up.
* Each object (`StoreOk`): it holds messages only while nobody waits for them.
* The processor (`SchedOk`): where a task runs code of its own, it is the most urgent one that
  is ready.

A step changes one task (`Frame`), so the others keep what holds of them; what the step
does to that one is said once for each service.
-/

namespace NetCamera.Rtos

open Run

namespace Kernel

/-! ## Reading the kernel -/

/-- The tasks on the wait list of an event. -/
def waiting (k : Kernel) (e : Ev) : PrioSet 8 := (k.OSEventTbl e).OSEventTbl

/-- The status bit of a task that waits for an event. -/
def kind (k : Kernel) (e : Ev) : BitVec 8 := (k.OSEventTbl e).object.stat

/-- The pend of a task stands in one of three ways: it waits, its time is up, or it was handed a
message. -/
inductive InPend (k : Kernel) (e : Ev) (p : Prio) (t : OS_TCB) : Prop where
  | waits (hstat : t.OSTCBStat = k.kind e) (hpend : t.OSTCBStatPend = .OS_STAT_PEND_OK)
      (hwait : p ∈ k.waiting e)
  | timedOut (hstat : t.OSTCBStat = OS_STAT_RDY) (hdly : t.OSTCBDly = 0)
      (hpend : t.OSTCBStatPend = .OS_STAT_PEND_TO) (hwait : p ∈ k.waiting e)
  | handed (hstat : t.OSTCBStat = OS_STAT_RDY) (hdly : t.OSTCBDly = 0)
      (hpend : t.OSTCBStatPend = .OS_STAT_PEND_OK) (hwait : p ∉ k.waiting e)

/-- The status of a task and its wait lists, by where it is. -/
def AtPc (k : Kernel) (p : Prio) (t : OS_TCB) : Pc → Prop
  | .code | .sched =>
      (t.OSTCBStat = OS_STAT_RDY ∨ t.OSTCBStat = OS_STAT_SUSPEND) ∧ ∀ e, p ∉ k.waiting e
  | .pendSched e | .pendWake e => (∀ e', e' ≠ e → p ∉ k.waiting e') ∧ InPend k e p t

/-- What holds of the task of a priority. -/
def TaskOk (k : Kernel) (p : Prio) : Prop :=
  match k.OSTCBPrioTbl p with
  | none => p ∉ k.OSRdyTbl ∧ ∀ e, p ∉ k.waiting e
  | some t =>
      (p ∈ k.OSRdyTbl ↔ t.OSTCBStat = OS_STAT_RDY ∧ t.OSTCBDly = 0) ∧ AtPc k p t t.OSTCBStkPtr

/-- An object holds messages only while nobody waits. -/
def StoreOk (k : Kernel) (e : Ev) : Prop :=
  (k.OSEventTbl e).object.contents ≠ [] → ∀ p, p ∉ k.waiting e

/-- The running task, the switch that is due, and the idle task. -/
structure SchedOk (k : Kernel) : Prop where
  cur : ∃ t, k.OSTCBPrioTbl k.OSPrioCur = some t
  idle : k.OSTCBPrioTbl OS_TASK_IDLE_PRIO = some ⟨OS_STAT_RDY, .OS_STAT_PEND_OK, 0, 0, .code⟩
  pendSV_unlocked : k.pendSV = true → k.OSLockNesting = 0
  highRdy : k.OSIntNesting = 0 → k.pendSV = true →
    IsLeast {p | p ∈ k.OSRdyTbl} k.OSPrioHighRdy
  running : k.OSLockNesting = 0 → ∀ pc, k.runsAt pc = true →
    (pc = .code ∨ ∃ e, pc = .pendWake e) → IsLeast {p | p ∈ k.OSRdyTbl} k.OSPrioCur
  locked : k.OSLockNesting ≠ 0 → ∀ t, k.OSTCBPrioTbl k.OSPrioCur = some t →
    t.OSTCBStkPtr = .code ∨ t.OSTCBStkPtr = .sched

/-- The invariant of the kernel. -/
structure Ok (k : Kernel) : Prop where
  task : ∀ p, TaskOk k p
  store : ∀ e, StoreOk k e
  sched : SchedOk k

theorem runsAt_iff {k : Kernel} {pc : Pc} : k.runsAt pc = true ↔
    k.OSIntNesting = 0 ∧ k.pendSV = false ∧
      ∃ t, k.OSTCBPrioTbl k.OSPrioCur = some t ∧ t.OSTCBStkPtr = pc := by
  simp [runsAt, OSTCBCur, and_assoc]

theorem mayCall_iff {k : Kernel} :
    k.mayCall = true ↔ k.runsAt .code = true ∧ k.OSPrioCur ≠ OS_TASK_IDLE_PRIO := by
  simp [mayCall]

theorem TaskOk.of_some {k : Kernel} {p : Prio} {t : OS_TCB} (h : TaskOk k p)
    (ht : k.OSTCBPrioTbl p = some t) :
    (p ∈ k.OSRdyTbl ↔ t.OSTCBStat = OS_STAT_RDY ∧ t.OSTCBDly = 0) ∧
      AtPc k p t t.OSTCBStkPtr := by
  rwa [TaskOk, ht] at h

theorem TaskOk.mk {k : Kernel} {p : Prio} {t : OS_TCB} (ht : k.OSTCBPrioTbl p = some t)
    (hrdy : p ∈ k.OSRdyTbl ↔ t.OSTCBStat = OS_STAT_RDY ∧ t.OSTCBDly = 0)
    (hpc : AtPc k p t t.OSTCBStkPtr) : TaskOk k p := by
  rw [TaskOk, ht]
  exact ⟨hrdy, hpc⟩

/-- A task that is ready exists. -/
theorem TaskOk.exists_of_ready {k : Kernel} {p : Prio} (h : TaskOk k p) (hp : p ∈ k.OSRdyTbl) :
    ∃ t, k.OSTCBPrioTbl p = some t := by
  rw [TaskOk] at h
  split at h
  · exact absurd hp h.1
  · next t ht => exact ⟨t, ht⟩

/-- A task on a wait list is in a pend on that event. -/
theorem TaskOk.inPend_of_waiting {k : Kernel} {p : Prio} {e : Ev} (h : TaskOk k p)
    (hp : p ∈ k.waiting e) :
    ∃ t, k.OSTCBPrioTbl p = some t ∧
      (t.OSTCBStkPtr = .pendSched e ∨ t.OSTCBStkPtr = .pendWake e) ∧ InPend k e p t := by
  rw [TaskOk] at h
  split at h
  · exact absurd hp (h.2 e)
  · next t ht =>
      have hin : ∀ e', (∀ e'', e'' ≠ e' → p ∉ k.waiting e'') → e' = e := fun e' hothers => by
        by_contra hne
        exact hothers e (Ne.symm hne) hp
      refine ⟨t, ht, ?_⟩
      have hpc := h.2
      cases hat : t.OSTCBStkPtr <;> rw [hat] at hpc
      · exact absurd hp (hpc.2 e)
      · exact absurd hp (hpc.2 e)
      · obtain rfl := hin _ hpc.1
        exact ⟨.inl rfl, hpc.2⟩
      · obtain rfl := hin _ hpc.1
        exact ⟨.inr rfl, hpc.2⟩

/-! ## Frames -/

/-- `k'` differs from `k` at most in the task of priority `p` and in what the objects hold. -/
structure Frame (k k' : Kernel) (p : Prio) : Prop where
  tcb : ∀ q, q ≠ p → k'.OSTCBPrioTbl q = k.OSTCBPrioTbl q
  rdy : ∀ q, q ≠ p → (q ∈ k'.OSRdyTbl ↔ q ∈ k.OSRdyTbl)
  waiting : ∀ q, q ≠ p → ∀ e, (q ∈ k'.waiting e ↔ q ∈ k.waiting e)
  kind : ∀ e, k'.kind e = k.kind e

theorem InPend.congr {k k' : Kernel} {e : Ev} {p : Prio} {t : OS_TCB} (h : InPend k e p t)
    (hkind : k'.kind e = k.kind e) (hwait : p ∈ k'.waiting e ↔ p ∈ k.waiting e) :
    InPend k' e p t := by
  cases h with
  | waits hstat hpend hw => exact .waits (hstat.trans hkind.symm) hpend (hwait.mpr hw)
  | timedOut hstat hdly hpend hw => exact .timedOut hstat hdly hpend (hwait.mpr hw)
  | handed hstat hdly hpend hw => exact .handed hstat hdly hpend (mt hwait.mp hw)

theorem AtPc.congr {k k' : Kernel} {p : Prio} {t : OS_TCB} {pc : Pc} (h : AtPc k p t pc)
    (hkind : ∀ e, k'.kind e = k.kind e) (hwait : ∀ e, p ∈ k'.waiting e ↔ p ∈ k.waiting e) :
    AtPc k' p t pc := by
  cases pc with
  | code => exact ⟨h.1, fun e => mt (hwait e).mp (h.2 e)⟩
  | sched => exact ⟨h.1, fun e => mt (hwait e).mp (h.2 e)⟩
  | pendSched e =>
      exact ⟨fun e' he => mt (hwait e').mp (h.1 e' he), h.2.congr (hkind e) (hwait e)⟩
  | pendWake e =>
      exact ⟨fun e' he => mt (hwait e').mp (h.1 e' he), h.2.congr (hkind e) (hwait e)⟩

/-- A task keeps what holds of it while nothing of it changes. -/
theorem TaskOk.congr {k k' : Kernel} {q : Prio} (h : TaskOk k q)
    (htcb : k'.OSTCBPrioTbl q = k.OSTCBPrioTbl q) (hrdy : q ∈ k'.OSRdyTbl ↔ q ∈ k.OSRdyTbl)
    (hwait : ∀ e, q ∈ k'.waiting e ↔ q ∈ k.waiting e) (hkind : ∀ e, k'.kind e = k.kind e) :
    TaskOk k' q := by
  rw [TaskOk] at h ⊢
  rw [htcb]
  split at h
  · exact ⟨mt hrdy.mp h.1, fun e => mt (hwait e).mp (h.2 e)⟩
  · exact ⟨hrdy.trans h.1, h.2.congr hkind hwait⟩

/-- **Frame rule**: of a change to one task only that task is to be looked at. -/
theorem task_of_frame {k k' : Kernel} {p : Prio} (h : ∀ q, TaskOk k q) (hf : Frame k k' p)
    (hp : TaskOk k' p) (q : Prio) : TaskOk k' q := by
  by_cases hq : q = p
  · exact hq ▸ hp
  · exact (h q).congr (hf.tcb q hq) (hf.rdy q hq) (hf.waiting q hq) hf.kind

/-! ## What a service does to its task -/

section Tasks

variable {k : Kernel} {e : Ev} {p : Prio} {t : OS_TCB}

/-- A task that was made ready by `OS_EventTaskRdy`. -/
def served (t : OS_TCB) (pmsg : Msg) : OS_TCB :=
  { t with
    OSTCBDly := 0
    OSTCBMsg := pmsg
    OSTCBStat := OS_STAT_RDY
    OSTCBStatPend := .OS_STAT_PEND_OK }

/-- The kernel after it. -/
def woken (k : Kernel) (e : Ev) (p : Prio) (t : OS_TCB) : Kernel :=
  ({ k.setTcb p t with OSRdyTbl := k.OSRdyTbl.insert p }).OS_EventTaskRemove p e

theorem kind_cases (k : Kernel) (e : Ev) : k.kind e = OS_STAT_Q ∨ k.kind e = OS_STAT_SEM := by
  rw [kind]
  cases (k.OSEventTbl e).object with
  | queue pq => exact .inl rfl
  | sem c => exact .inr rfl

theorem kind_ne_rdy (k : Kernel) (e : Ev) : k.kind e ≠ OS_STAT_RDY := by
  rcases kind_cases k e with h | h <;> rw [h] <;> decide

theorem InPend.stat_cases (h : InPend k e p t) :
    t.OSTCBStat = k.kind e ∨ t.OSTCBStat = OS_STAT_RDY := by
  cases h with
  | waits hstat => exact .inl hstat
  | timedOut hstat => exact .inr hstat
  | handed hstat => exact .inr hstat

/-- Clearing its bit leaves a waiting task ready. -/
theorem InPend.clear_kind (h : InPend k e p t) :
    t.OSTCBStat &&& ~~~ k.kind e = OS_STAT_RDY := by
  rcases h.stat_cases with hstat | hstat <;> rcases kind_cases k e with hk | hk <;>
    rw [hstat] <;> rw [hk] <;> decide

theorem eventTbl_setEvent (k : Kernel) (e e' : Ev) (v : OS_EVENT) :
    (k.setEvent e v).OSEventTbl e' = if e' = e then v else k.OSEventTbl e' :=
  Function.update_apply ..

theorem waiting_setEvent (k : Kernel) (e e' : Ev) (v : OS_EVENT) :
    (k.setEvent e v).waiting e' = if e' = e then v.OSEventTbl else k.waiting e' := by
  rw [waiting, eventTbl_setEvent]
  split <;> rfl

theorem kind_setEvent (k : Kernel) (e e' : Ev) (v : OS_EVENT) :
    (k.setEvent e v).kind e' = if e' = e then v.object.stat else k.kind e' := by
  rw [kind, eventTbl_setEvent]
  split <;> rfl

@[simp] theorem mem_waiting_remove {q : Prio} (k : Kernel) (p : Prio) (e e' : Ev) :
    q ∈ (k.OS_EventTaskRemove p e).waiting e' ↔ (e' = e → q ≠ p) ∧ q ∈ k.waiting e' := by
  rw [OS_EventTaskRemove, waiting_setEvent]
  by_cases h : e' = e
  · rw [if_pos h, PrioSet.mem_remove, h]
    exact and_congr_left' ⟨fun hq _ => hq, fun hq => hq rfl⟩
  · rw [if_neg h]
    exact ⟨fun hq => ⟨fun he => absurd he h, hq⟩, And.right⟩

@[simp] theorem kind_remove (k : Kernel) (p : Prio) (e e' : Ev) :
    (k.OS_EventTaskRemove p e).kind e' = k.kind e' := by
  rw [OS_EventTaskRemove, kind_setEvent]
  split
  · next h => rw [h, kind]
  · rfl

/-- **What `OS_EventTaskRdy` does** when somebody waits: the most urgent task that waits gets the
message, is made ready and leaves the wait list. -/
theorem eventTaskRdy_eq (h : ∀ q, TaskOk k q) (hne : (k.waiting e).grp ≠ 0) (pmsg : Msg) :
    ∃ p t, k.OSTCBPrioTbl p = some t ∧ IsLeast {q | q ∈ k.waiting e} p ∧
      (t.OSTCBStkPtr = .pendSched e ∨ t.OSTCBStkPtr = .pendWake e) ∧ InPend k e p t ∧
      k.OS_EventTaskRdy e pmsg (k.kind e) .OS_STAT_PEND_OK =
        (p, k.woken e p (served t pmsg)) := by
  have hleast := PrioSet.isLeast_least isUnMap_unMap hne
  obtain ⟨t, ht, hpc, hin⟩ := (h _).inPend_of_waiting hleast.1
  refine ⟨_, t, ht, hleast, hpc, hin, ?_⟩
  have ht' : k.OSTCBPrioTbl (PrioSet.least unMap (k.OSEventTbl e).OSEventTbl) = some t := ht
  rw [OS_EventTaskRdy]
  have hrdy : OS_STAT_RDY &&& OS_STAT_SUSPEND = OS_STAT_RDY := by decide
  simp only [ht', hin.clear_kind]
  rw [makeReady, if_pos hrdy]
  rfl

theorem frame_woken (k : Kernel) (e : Ev) (p : Prio) (t : OS_TCB) :
    Frame k (k.woken e p t) p where
  tcb q hq := Function.update_of_ne hq _ _
  rdy q hq := by
    show q ∈ k.OSRdyTbl.insert p ↔ _
    rw [PrioSet.mem_insert]
    exact or_iff_right hq
  waiting q hq e' := by
    rw [woken, mem_waiting_remove]
    exact and_iff_right fun _ => hq
  kind e' := kind_remove _ p e e'

/-- A task that was served is in order. -/
theorem task_woken (h : ∀ q, TaskOk k q) (ht : k.OSTCBPrioTbl p = some t)
    (hpc : t.OSTCBStkPtr = .pendSched e ∨ t.OSTCBStkPtr = .pendWake e) (pmsg : Msg) (q : Prio) :
    TaskOk (k.woken e p (served t pmsg)) q := by
  refine task_of_frame h (frame_woken k e p _) (.mk (Function.update_self ..) ?_ ?_) q
  · exact iff_of_true (PrioSet.mem_insert.mpr (.inl rfl)) ⟨rfl, rfl⟩
  · have hat := ((h p).of_some ht).2
    have hothers : ∀ e', e' ≠ e → p ∉ (k.woken e p (served t pmsg)).waiting e' := by
      intro e' he hp
      rw [woken, mem_waiting_remove] at hp
      rcases hpc with hpc | hpc <;> rw [hpc] at hat <;> exact hat.1 e' he hp.2
    have hin : InPend (k.woken e p (served t pmsg)) e p (served t pmsg) := by
      refine .handed rfl rfl rfl fun hp => ?_
      rw [woken, mem_waiting_remove] at hp
      exact hp.1 rfl rfl
    rcases hpc with hpc | hpc
    · rw [show (served t pmsg).OSTCBStkPtr = _ from hpc]
      exact ⟨hothers, hin⟩
    · rw [show (served t pmsg).OSTCBStkPtr = _ from hpc]
      exact ⟨hothers, hin⟩

/-- A change to a control block and to the place of its task on the ready list. -/
theorem task_setTcb (h : ∀ q, TaskOk k q) {s : PrioSet 8}
    (hs : ∀ q, q ≠ p → (q ∈ s ↔ q ∈ k.OSRdyTbl))
    (hrdy : p ∈ s ↔ t.OSTCBStat = OS_STAT_RDY ∧ t.OSTCBDly = 0)
    (hpc : AtPc k p t t.OSTCBStkPtr) (q : Prio) :
    TaskOk { k.setTcb p t with OSRdyTbl := s } q := by
  have hf : Frame k { k.setTcb p t with OSRdyTbl := s } p :=
    ⟨fun q hq => Function.update_of_ne hq _ _, hs, fun _ _ _ => Iff.rfl, fun _ => rfl⟩
  exact task_of_frame h hf
    (.mk (Function.update_self ..) hrdy (hpc.congr (fun _ => rfl) fun _ => Iff.rfl)) q

theorem InPend.goOn (h : InPend k e p t) (pc : Pc) :
    InPend (k.goOn pc) e p { t with OSTCBStkPtr := pc } := by
  cases h with
  | waits hstat hpend hw => exact .waits hstat hpend hw
  | timedOut hstat hdly hpend hw => exact .timedOut hstat hdly hpend hw
  | handed hstat hdly hpend hw => exact .handed hstat hdly hpend hw

theorem tcb_goOn {t : OS_TCB} (ht : k.OSTCBPrioTbl k.OSPrioCur = some t) (pc : Pc) :
    (k.goOn pc).OSTCBPrioTbl =
      Function.update k.OSTCBPrioTbl k.OSPrioCur (some { t with OSTCBStkPtr := pc }) := by
  rw [goOn, OSTCBCur, ht]
  rfl

theorem tcb_goOn_self (ht : k.OSTCBPrioTbl k.OSPrioCur = some t) (pc : Pc) :
    (k.goOn pc).OSTCBPrioTbl k.OSPrioCur = some { t with OSTCBStkPtr := pc } := by
  rw [tcb_goOn ht]
  exact Function.update_self ..

/-- The running task goes on elsewhere. -/
theorem task_goOn {pc : Pc} (h : ∀ q, q ≠ k.OSPrioCur → TaskOk k q)
    (ht : k.OSTCBPrioTbl k.OSPrioCur = some t)
    (hrdy : k.OSPrioCur ∈ k.OSRdyTbl ↔ t.OSTCBStat = OS_STAT_RDY ∧ t.OSTCBDly = 0)
    (hpc : AtPc k k.OSPrioCur t pc) (q : Prio) : TaskOk (k.goOn pc) q := by
  by_cases hq : q = k.OSPrioCur
  · subst hq
    refine .mk (tcb_goOn_self ht pc) hrdy ?_
    cases pc with
    | code => exact hpc
    | sched => exact hpc
    | pendSched e => exact ⟨hpc.1, hpc.2.goOn _⟩
    | pendWake e => exact ⟨hpc.1, hpc.2.goOn _⟩
  · exact (h q hq).congr (Function.update_of_ne hq _ _) Iff.rfl (fun _ => Iff.rfl) fun _ => rfl

/-- A task whose delay runs waits with a timeout, or it is in no pend. -/
theorem AtPc.of_delayed {pc : Pc} (h : AtPc k p t pc) (hdly : t.OSTCBDly ≠ 0) :
    (∃ e, (pc = .pendSched e ∨ pc = .pendWake e) ∧ (∀ e', e' ≠ e → p ∉ k.waiting e') ∧
      t.OSTCBStat = k.kind e ∧ t.OSTCBStatPend = .OS_STAT_PEND_OK ∧ p ∈ k.waiting e) ∨
    ((pc = .code ∨ pc = .sched) ∧
      (t.OSTCBStat = OS_STAT_RDY ∨ t.OSTCBStat = OS_STAT_SUSPEND) ∧ ∀ e, p ∉ k.waiting e) := by
  have hwaits : ∀ e, InPend k e p t →
      t.OSTCBStat = k.kind e ∧ t.OSTCBStatPend = .OS_STAT_PEND_OK ∧ p ∈ k.waiting e := by
    intro e hin
    cases hin with
    | waits hstat hpend hw => exact ⟨hstat, hpend, hw⟩
    | timedOut _ hdly' => exact absurd hdly' hdly
    | handed _ hdly' => exact absurd hdly' hdly
  cases pc with
  | code => exact .inr ⟨.inl rfl, h⟩
  | sched => exact .inr ⟨.inr rfl, h⟩
  | pendSched e => exact .inl ⟨e, .inl rfl, h.1, hwaits e h.2⟩
  | pendWake e => exact .inl ⟨e, .inr rfl, h.1, hwaits e h.2⟩

/-- A task whose time is up: one that waits is told so, and both kinds are made ready. -/
theorem task_timeUp (h : ∀ q, TaskOk k q) (ht : k.OSTCBPrioTbl p = some t)
    (hdly : t.OSTCBDly ≠ 0) {t' : OS_TCB} (hpc' : t'.OSTCBStkPtr = t.OSTCBStkPtr)
    (hdly' : t'.OSTCBDly = 0)
    (hstat : if t.OSTCBStat &&& OS_STAT_PEND_ANY ≠ OS_STAT_RDY then
        t'.OSTCBStat = t.OSTCBStat &&& ~~~ OS_STAT_PEND_ANY ∧
          t'.OSTCBStatPend = .OS_STAT_PEND_TO
      else t'.OSTCBStat = t.OSTCBStat) (q : Prio) :
    TaskOk ((k.setTcb p t').makeReady p t') q := by
  obtain ⟨hrdy, hpc⟩ := (h p).of_some ht
  have hnot : p ∉ k.OSRdyTbl := fun hp => hdly (hrdy.mp hp).2
  have hins : ∀ q, q ≠ p → (q ∈ k.OSRdyTbl.insert p ↔ q ∈ k.OSRdyTbl) := fun q hq => by
    rw [PrioSet.mem_insert]
    exact or_iff_right hq
  have hself : p ∈ k.OSRdyTbl.insert p := PrioSet.mem_insert.mpr (.inl rfl)
  have hrdy_susp : OS_STAT_RDY &&& OS_STAT_SUSPEND = OS_STAT_RDY := by decide
  rcases hpc.of_delayed hdly with ⟨e, hat, hothers, hkind, -, hw⟩ | ⟨hat, hrs, hno⟩
  · -- a pend with a timeout
    have hany : k.kind e &&& OS_STAT_PEND_ANY ≠ OS_STAT_RDY ∧
        k.kind e &&& ~~~ OS_STAT_PEND_ANY = OS_STAT_RDY := by
      rcases kind_cases k e with hk | hk <;> rw [hk] <;> decide
    rw [hkind, if_pos hany.1, hany.2] at hstat
    have hin : InPend k e p t' := .timedOut hstat.1 hdly' hstat.2 hw
    rw [makeReady, hstat.1, if_pos hrdy_susp]
    refine task_setTcb h hins (iff_of_true hself ⟨hstat.1, hdly'⟩) ?_ q
    rw [hpc']
    rcases hat with hat | hat <;> rw [hat] <;> exact ⟨hothers, hin⟩
  · have hnone : t.OSTCBStat &&& OS_STAT_PEND_ANY = OS_STAT_RDY := by
      rcases hrs with hs | hs <;> rw [hs] <;> decide
    rw [if_neg (not_not.mpr hnone)] at hstat
    have hpc'' : AtPc k p t' t'.OSTCBStkPtr := by
      rw [hpc']
      rcases hat with hat | hat <;> rw [hat] <;> exact ⟨hstat ▸ hrs, hno⟩
    rcases hrs with hs | hs
    · -- a delay
      rw [makeReady, hstat, hs, if_pos hrdy_susp]
      exact task_setTcb h hins (iff_of_true hself ⟨hstat.trans hs, hdly'⟩) hpc'' q
    · have hsusp : OS_STAT_SUSPEND &&& OS_STAT_SUSPEND ≠ OS_STAT_RDY := by decide
      have hne : OS_STAT_SUSPEND ≠ OS_STAT_RDY := by decide
      rw [makeReady, hstat, hs, if_neg hsusp]
      exact task_setTcb h (fun _ _ => Iff.rfl)
        (iff_of_false hnot fun hr => hne (hs ▸ hstat ▸ hr.1)) hpc'' q

/-- What the tick does to a task leaves the tasks in order. -/
theorem task_tick (h : ∀ q, TaskOk k q) (p q : Prio) : TaskOk (k.tickTcb p) q := by
  rw [tickTcb]
  split
  · exact h q
  · next t ht =>
      obtain ⟨hrdy, hpc⟩ := (h p).of_some ht
      by_cases hdly : t.OSTCBDly = 0
      · simpa [hdly] using h q
      · have hnot : p ∉ k.OSRdyTbl := fun hp => hdly (hrdy.mp hp).2
        simp only [ne_eq, hdly, not_false_eq_true, if_true]
        by_cases hlast : t.OSTCBDly - 1 = 0
        · simp only [hlast, if_true]
          refine task_timeUp h ht hdly ?_ ?_ ?_ q <;> split <;> simp_all
        · simp only [hlast, if_false]
          refine task_setTcb h (s := k.OSRdyTbl) (fun _ _ => Iff.rfl)
            (iff_of_false hnot fun hr => hlast hr.2) ?_ q
          rcases hpc.of_delayed hdly with ⟨e, hat, hothers, hkind, hpend, hw⟩ | ⟨hat, hrs, hno⟩
          · show AtPc k p _ t.OSTCBStkPtr
            rcases hat with hat | hat <;> rw [hat] <;> exact ⟨hothers, .waits hkind hpend hw⟩
          · show AtPc k p _ t.OSTCBStkPtr
            rcases hat with hat | hat <;> rw [hat] <;> exact ⟨hrs, hno⟩

end Tasks

end Kernel

end NetCamera.Rtos
