import NetCamera.Rtos.Sched
import NetCamera.Ucos

/-!
# NetCamera.Rtos.Thread

A thread as a task of the kernel.

`ucos` answers the calls of one thread out of its own control block, its queue and its semaphore.
`rtos` answers them out of the whole kernel: the thread goes on only where its task runs, among
interrupts and other tasks, a pend takes as many steps as it has critical sections, and a tick
comes to the counter first and to the task later.  As long as nobody else pends on its two
objects, the thread sees no difference: what an event is to it, `Owner.seen` says, and every
other step leaves its objects and its control block alone (`leaves_step`).
-/

namespace NetCamera.Rtos

open Run Calls

/-! ## The machine -/

/-- A task, and the mailbox and the semaphore that only it pends on. -/
structure Owner where
  prio : Prio
  mbox : Ev
  sem : Ev
  ne : mbox ≠ sem

/-- The kernel, and whether a tick has been counted and has not come to the task yet. -/
structure Watched where
  kernel : Kernel
  ticking : Bool

/-- `*perr` of a pend, which leaves none of the others there. -/
def OsErr.ofPend : OsErr → NetCamera.OsErr
  | .OS_ERR_EVENT_TYPE => .OS_ERR_EVENT_TYPE
  | .OS_ERR_PEND_ISR => .OS_ERR_PEND_ISR
  | .OS_ERR_TIMEOUT => .OS_ERR_TIMEOUT
  | .OS_ERR_PEND_LOCKED => .OS_ERR_PEND_LOCKED
  | .OS_ERR_PEND_ABORT => .OS_ERR_PEND_ABORT
  | _ => .OS_ERR_NONE

namespace Kernel

/-- A pend on `e`, with the first part `r`, goes on by one of its steps. -/
def servePend (k : Kernel) (e : Ev) (r : Pended) : Option (Option (Msg × OsErr) × Kernel) :=
  if k.mayCall then
    match r with
    | .returns pmsg err k => some (some (pmsg, err), k)
    | .waits k => some (none, k.goOn (.pendSched e))
  else if k.runsAt (.pendSched e) then some (none, k.OS_Sched.goOn (.pendWake e))
  else if k.runsAt (.pendWake e) then
    (k.pendEnd e).map fun r => (some (r.1, r.2.1), r.2.2.goOn .code)
  else none

/-- A call of the running task. -/
def serve (k : Kernel) (o : Owner) : (q : OsCall) → Option (Option q.Answer × Kernel)
  | .OSTimeGet => if k.mayCall then some (some k.OSTime, k) else none
  | .OSQPend timeout => (k.servePend o.mbox (k.OSQPend o.mbox timeout)).map fun r =>
      (r.1.map fun ans => (ans.1, ans.2.ofPend), r.2)
  | .OSSemPend timeout => (k.servePend o.sem (k.OSSemPend o.sem timeout)).map fun r =>
      (r.1.map fun ans => ans.2.ofPend, r.2)

end Kernel

/-- Whether a tick is still to come to the task. -/
def Owner.counted (o : Owner) (ticking : Bool) : Event → Bool
  | .OSTime => true
  | .tickTcb p => if p = o.prio then false else ticking
  | _ => ticking

/-- The kernel as it answers the calls of the task; a step that cannot happen changes nothing. -/
def rtos (o : Owner) : Machine OsCall.Answer Watched Event where
  serve q s :=
    if s.kernel.OSPrioCur = o.prio then
      (s.kernel.serve o q).map fun r => (r.1, { s with kernel := r.2 })
    else none
  env ev s :=
    match s.kernel.step ev with
    | none => s
    | some k => ⟨k, o.counted s.ticking ev⟩

/-- The object that an event pends on. -/
def Event.pendsOn : Event → Option Ev
  | .OSQPend e _ | .OSSemPend e _ => some e
  | _ => none

/-- What may happen around the task: a step of the kernel that is none of its own, no pend on its
objects, and whole ticks, one after the other, inside an interrupt. -/
structure Around (o : Owner) (s : Watched) (ev : Event) : Prop where
  possible : (s.kernel.step ev).isSome = true
  others : s.kernel.OSPrioCur = o.prio → s.kernel.OSIntNesting = 0 →
    ev = .OSIntEnter ∨ ev = .OS_CPU_PendSVHandler
  queue : ev.pendsOn ≠ some o.mbox
  sem : ev.pendsOn ≠ some o.sem
  counted : ev = .OSTime → s.ticking = false
  ticked : ev = .tickTcb o.prio → s.ticking = true
  whole : ev = .OSIntExit → s.kernel.OSIntNesting = 1 → s.ticking = false

instance decidableAround (o : Owner) (s : Watched) (ev : Event) : Decidable (Around o s ev) :=
  decidable_of_iff ((s.kernel.step ev).isSome = true ∧
      (s.kernel.OSPrioCur = o.prio → s.kernel.OSIntNesting = 0 →
        ev = .OSIntEnter ∨ ev = .OS_CPU_PendSVHandler) ∧
      ev.pendsOn ≠ some o.mbox ∧ ev.pendsOn ≠ some o.sem ∧
      (ev = .OSTime → s.ticking = false) ∧ (ev = .tickTcb o.prio → s.ticking = true) ∧
      (ev = .OSIntExit → s.kernel.OSIntNesting = 1 → s.ticking = false))
    ⟨fun ⟨h₁, h₂, h₃, h₄, h₅, h₆, h₇⟩ => ⟨h₁, h₂, h₃, h₄, h₅, h₆, h₇⟩,
      fun ⟨h₁, h₂, h₃, h₄, h₅, h₆, h₇⟩ => ⟨h₁, h₂, h₃, h₄, h₅, h₆, h₇⟩⟩

/-- A step of a task is none of the thread's. -/
theorem Around.other {o : Owner} {s : Watched} {ev : Event} (h : Around o s ev)
    (hnest : s.kernel.OSIntNesting = 0) (henter : ev ≠ .OSIntEnter)
    (hswitch : ev ≠ .OS_CPU_PendSVHandler) : s.kernel.OSPrioCur ≠ o.prio := fun hcur =>
  (h.others hcur hnest).elim henter hswitch

/-- What an event is to the thread. -/
def Owner.seen (o : Owner) : Event → List KernelEvent
  | .tickTcb p => if p = o.prio then [.OSTimeTick] else []
  | .OSQPost e pmsg => if e = o.mbox then [.OSQPost pmsg] else []
  | .OSSemPost e => if e = o.sem then [.OSSemPost] else []
  | _ => []

/-! ## What the thread sees -/

namespace Kernel

/-- The wait list of an event, as the thread knows it. -/
inductive Waits (o : Owner) : Ev → WaitList → Prop where
  | queue : Waits o o.mbox .queue
  | sem : Waits o o.sem .sem

/-- The control block of a task inside a pend on `e`. -/
structure Inside (o : Owner) (k : Kernel) (t : OS_TCB) (e : Ev) (w : WaitList)
    (a : NetCamera.Kernel) : Prop where
  inPend : a.inPend = true
  waitsOn : a.waitsOn = if o.prio ∈ k.waiting e then some w else none
  pending : a.pending = true ↔ t.OSTCBStat ≠ OS_STAT_RDY
  timedOut : a.OSTCBStatPend = .OS_STAT_PEND_TO ↔ t.OSTCBStatPend = .OS_STAT_PEND_TO
  dly : a.OSTCBDly = t.OSTCBDly
  msg : o.prio ∉ k.waiting e → a.OSTCBMsg = t.OSTCBMsg

/-- The control block of the task. -/
inductive TaskView (o : Owner) (k : Kernel) (t : OS_TCB) (a : NetCamera.Kernel) : Prop where
  | outside (hpc : t.OSTCBStkPtr = .code ∨ t.OSTCBStkPtr = .sched) (hin : a.inPend = false)
      (hon : a.waitsOn = none)
  | inside (e : Ev) (w : WaitList) (hw : Waits o e w)
      (hpc : t.OSTCBStkPtr = .pendSched e ∨ t.OSTCBStkPtr = .pendWake e)
      (hin : Inside o k t e w a)

/-- What the thread sees of its objects and of its control block; nobody else waits for them. -/
structure Shown (o : Owner) (k : Kernel) (a : NetCamera.Kernel) : Prop where
  queue : ∃ pq, (k.OSEventTbl o.mbox).object = .queue pq ∧ a.OSQ = pq.contents ∧
    a.OSQSize = pq.OSQSize
  sem : (k.OSEventTbl o.sem).object = .sem a.OSEventCnt
  alone : ∀ e w, Waits o e w → ∀ q, q ∈ k.waiting e → q = o.prio
  task : ∃ t, k.OSTCBPrioTbl o.prio = some t ∧ TaskView o k t a

end Kernel

/-- The kernel as the thread sees it.  A tick may have been counted that has not come to the task
yet, in an interrupt; and the scheduler is not locked where the task runs. -/
structure View (o : Owner) (s : Watched) (a : NetCamera.Kernel) : Prop where
  ok : s.kernel.Ok
  shown : s.kernel.Shown o a
  unlocked : s.kernel.OSPrioCur = o.prio → s.kernel.OSLockNesting = 0
  time : s.kernel.OSTime = a.OSTime + if s.ticking then 1 else 0
  ticking : s.ticking = true → s.kernel.OSIntNesting ≠ 0

namespace Kernel

section Steps

variable {o : Owner} {k k' : Kernel} {a : NetCamera.Kernel} {e : Ev} {w : WaitList}

/-- The thread's objects are not those of others. -/
theorem ne_of_waits {e' : Ev} (he : ∀ w, ¬ Waits o e w) (hw : Waits o e' w) : e' ≠ e := by
  rintro rfl
  exact he w hw

/-- Whose list a task is on, it waits for, and the thread sees it there. -/
theorem Shown.inside_of_waiting (hok : Ok k) (h : Shown o k a) (hw : o.prio ∈ k.waiting e) :
    ∃ t w, k.OSTCBPrioTbl o.prio = some t ∧ Waits o e w ∧ Inside o k t e w a := by
  obtain ⟨t, ht, hpc, -⟩ := (hok.task o.prio).inPend_of_waiting hw
  obtain ⟨t', ht', hview⟩ := h.task
  obtain rfl := Option.some.inj (ht.symm.trans ht')
  cases hview with
  | outside hat =>
      rcases hat with hat | hat <;> rw [hat] at hpc <;> rcases hpc with hpc | hpc <;> cases hpc
  | inside e' w hwait hat hin =>
      obtain rfl : e' = e := by
        rcases hat with hat | hat <;> rw [hat] at hpc <;> rcases hpc with hpc | hpc <;>
          cases hpc <;> rfl
      exact ⟨t, w, ht, hwait, hin⟩

/-! ## Steps of others -/

/-- The objects of the thread and its control block stay as they are. -/
structure Leaves (o : Owner) (k k' : Kernel) : Prop where
  event : ∀ e w, Waits o e w → k'.OSEventTbl e = k.OSEventTbl e
  tcb : k'.OSTCBPrioTbl o.prio = k.OSTCBPrioTbl o.prio

/-- A wait list that is the same is seen as the same. -/
theorem Inside.congr {t : OS_TCB} (h : Inside o k t e w a) (hwait : k'.waiting e = k.waiting e) :
    Inside o k' t e w a :=
  ⟨h.inPend, hwait ▸ h.waitsOn, h.pending, h.timedOut, h.dly, fun hno => h.msg (hwait ▸ hno)⟩

/-- **What is left alone** is seen as before. -/
theorem Shown.congr (h : Shown o k a) (hl : Leaves o k k') : Shown o k' a := by
  have hqueue := hl.event o.mbox .queue .queue
  have hsem := hl.event o.sem .sem .sem
  have hwait : ∀ e w, Waits o e w → k'.waiting e = k.waiting e := fun e w hw => by
    rw [waiting, hl.event e w hw, waiting]
  obtain ⟨t, ht, hview⟩ := h.task
  refine ⟨hqueue ▸ h.queue, hsem ▸ h.sem, fun e w hw q hq => h.alone e w hw q ?_, t,
    hl.tcb.trans ht, ?_⟩
  · exact hwait e w hw ▸ hq
  · cases hview with
    | outside hpc hin hon => exact .outside hpc hin hon
    | inside e w hw hpc hin => exact .inside e w hw hpc (hin.congr (hwait e w hw))

theorem Leaves.refl (o : Owner) (k : Kernel) : Leaves o k k := ⟨fun _ _ _ => rfl, rfl⟩

theorem Leaves.trans {k'' : Kernel} (h : Leaves o k k') (h' : Leaves o k' k'') : Leaves o k k'' :=
  ⟨fun e w hw => (h'.event e w hw).trans (h.event e w hw), h'.tcb.trans h.tcb⟩

/-- The scheduler touches neither. -/
theorem Leaves.OS_Sched (h : Leaves o k k') : Leaves o k k'.OS_Sched := by
  obtain ⟨hp, sv, heq⟩ := OS_Sched_eq k'
  rw [heq]
  exact ⟨h.event, h.tcb⟩

/-- Another task goes on. -/
theorem Leaves.goOn {pc : Pc} (h : Leaves o k k') (hcur : k'.OSPrioCur ≠ o.prio) :
    Leaves o k (k'.goOn pc) :=
  ⟨h.event, (Function.update_of_ne (Ne.symm hcur) _ _).trans h.tcb⟩

/-- Another task's control block is written. -/
theorem leaves_setTcb {p : Prio} (hp : p ≠ o.prio) (t : OS_TCB) : Leaves o k (k.setTcb p t) :=
  ⟨fun _ _ _ => rfl, Function.update_of_ne (Ne.symm hp) _ _⟩

/-- Another object is written. -/
theorem leaves_setEvent (he : ∀ w, ¬ Waits o e w) (v : OS_EVENT) : Leaves o k (k.setEvent e v) :=
  ⟨fun _ _ hw => Function.update_of_ne (ne_of_waits he hw) _ _, rfl⟩

/-- A post to another object. -/
theorem leaves_post (hok : Ok k) (h : Shown o k a) (he : ∀ w, ¬ Waits o e w) (m : Msg) :
    Leaves o k (k.post e m).kernel := by
  rcases post_cases hok.task e m with ⟨p, t, -, hleast, -, -, hpost⟩ |
    ⟨-, ⟨object, -, hpost⟩ | ⟨-, hpost⟩⟩
  · have hp : p ≠ o.prio := by
      rintro rfl
      obtain ⟨-, w, -, hw, -⟩ := h.inside_of_waiting hok hleast.1
      exact he w hw
    rw [hpost]
    exact ⟨fun _ _ hw => Function.update_of_ne (ne_of_waits he hw) _ _,
      Function.update_of_ne (Ne.symm hp) _ _⟩
  · rw [hpost]
    exact leaves_setEvent he _
  · rw [hpost]
    exact .refl o k

/-- Behind a post an interrupt service routine or another task goes on. -/
theorem leaves_posted {r : Posted} (hcur : k.OSIntNesting = 0 → r.kernel.OSPrioCur ≠ o.prio)
    (hk : k.posted r = some k') : Leaves o r.kernel k' := by
  rw [posted] at hk
  split at hk
  · obtain rfl := Option.some.inj hk
    split
    · exact (Leaves.refl o _).OS_Sched
    · exact .refl o _
  · next hnest =>
      split at hk
      · obtain rfl := Option.some.inj hk
        exact (Leaves.refl o _).goOn (hcur (eq_zero_of_not_pos hnest))
      · cases hk

/-- A pend of another task on another object. -/
theorem leaves_pend (he : ∀ w, ¬ Waits o e w) (hmay : k.mayCall = true)
    (hcur : k.OSPrioCur ≠ o.prio) (timeout : UInt32) :
    Leaves o k (pended e (k.pend e timeout)) := by
  obtain ⟨hnest, -, t, ht, -⟩ := runsAt_iff.mp (mayCall_iff.mp hmay).1
  rcases pend_cases hnest ht e timeout with ⟨-, hpend⟩ |
    ⟨-, ⟨m, object, -, hpend⟩ | ⟨-, hpend⟩⟩
  · rw [hpend]
    exact .refl o k
  · rw [hpend]
    exact leaves_setEvent he _
  · have hblocked : Leaves o k (k.blocked e t timeout) :=
      ⟨fun _ _ hw => Function.update_of_ne (ne_of_waits he hw) _ _,
        Function.update_of_ne (Ne.symm hcur) _ _⟩
    rw [hpend]
    exact hblocked.goOn hcur

/-- The end of another task's pend; one on an object of the thread was handed its message, as
nobody else waits there. -/
theorem leaves_pendEnd (hok : Ok k) (h : Shown o k a) (hrun : k.runsAt (.pendWake e) = true)
    (hcur : k.OSPrioCur ≠ o.prio) {r : Msg × OsErr × Kernel} (hr : k.pendEnd e = some r) :
    Leaves o k (r.2.2.goOn .code) := by
  obtain ⟨t, -, -, -, -, -, -, ⟨-, -, hend⟩ | ⟨-, hwait, hend⟩⟩ := pendEnd_cases hok hrun
  · obtain rfl := Option.some.inj (hr.symm.trans hend)
    exact (leaves_setTcb hcur _).goOn hcur
  · obtain rfl := Option.some.inj (hr.symm.trans hend)
    have he : ∀ w, ¬ Waits o e w := fun w hw => hcur (h.alone e w hw _ hwait)
    exact ((leaves_setEvent he _).trans (leaves_setTcb hcur _)).goOn hcur

/-- Another queue is none of the thread's objects. -/
theorem Shown.not_waits_of_queue (h : Shown o k a) (he : e ≠ o.mbox)
    (hq : (k.OSEventTbl e).object.isQueue = true) (w : WaitList) : ¬ Waits o e w := by
  intro hw
  cases hw with
  | queue => exact he rfl
  | sem =>
      rw [h.sem] at hq
      cases hq

/-- And so is another semaphore. -/
theorem Shown.not_waits_of_sem (h : Shown o k a) (he : e ≠ o.sem)
    (hq : ¬ (k.OSEventTbl e).object.isQueue = true) (w : WaitList) : ¬ Waits o e w := by
  intro hw
  obtain ⟨pq, hqueue, -⟩ := h.queue
  cases hw with
  | queue =>
      rw [hqueue] at hq
      exact hq rfl
  | sem => exact he rfl

/-- **What the thread does not see** leaves its objects and its control block alone. -/
theorem leaves_step {s : Watched} {ev : Event} (hok : s.kernel.Ok) (h : Shown o s.kernel a)
    (hr : Around o s ev) (hseen : o.seen ev = []) (hk : s.kernel.step ev = some k') :
    Leaves o s.kernel k' := by
  have hcall : s.kernel.mayCall = true → ev ≠ .OSIntEnter → ev ≠ .OS_CPU_PendSVHandler →
      s.kernel.OSPrioCur ≠ o.prio := fun hmay =>
    hr.other (runsAt_iff.mp (mayCall_iff.mp hmay).1).1
  have hat : ∀ pc, s.kernel.runsAt pc = true → ev ≠ .OSIntEnter → ev ≠ .OS_CPU_PendSVHandler →
      s.kernel.OSPrioCur ≠ o.prio := fun pc hrun => hr.other (runsAt_iff.mp hrun).1
  cases ev with
  | OSIntEnter =>
      obtain ⟨-, hk⟩ := Option.ite_none_right_eq_some.mp hk
      obtain rfl := Option.some.inj hk
      obtain ⟨n, heq⟩ := OSIntEnter_eq s.kernel
      rw [heq]
      exact ⟨fun _ _ _ => rfl, rfl⟩
  | OSIntExit =>
      obtain ⟨hnest, hk⟩ := Option.ite_none_right_eq_some.mp hk
      obtain rfl := Option.some.inj hk
      rw [OSIntExit_eq hnest]
      exact Leaves.OS_Sched ⟨fun _ _ _ => rfl, rfl⟩
  | OS_CPU_PendSVHandler =>
      obtain ⟨-, hk⟩ := Option.ite_none_right_eq_some.mp hk
      obtain rfl := Option.some.inj hk
      exact ⟨fun _ _ _ => rfl, rfl⟩
  | OSTime =>
      obtain ⟨-, hk⟩ := Option.ite_none_right_eq_some.mp hk
      obtain rfl := Option.some.inj hk
      exact ⟨fun _ _ _ => rfl, rfl⟩
  | tickTcb p =>
      obtain ⟨-, hk⟩ := Option.ite_none_right_eq_some.mp hk
      obtain rfl := Option.some.inj hk
      have hp : p ≠ o.prio := fun hp => by simp [Owner.seen, hp] at hseen
      rcases tickTcb_eq s.kernel p with heq | ⟨t, t', l, -, -, -, -, heq⟩
      · rw [heq]
        exact .refl o _
      · rw [heq]
        exact (leaves_setTcb hp t').trans ⟨fun _ _ _ => rfl, rfl⟩
  | OSQPost e m =>
      have he : e ≠ o.mbox := fun he => by simp [Owner.seen, he] at hseen
      have hpost : Leaves o s.kernel (s.kernel.OSQPost e m).kernel ∧
          (s.kernel.OSQPost e m).kernel.OSPrioCur = s.kernel.OSPrioCur := by
        rw [OSQPost]
        split
        · next hq =>
            exact ⟨leaves_post hok h (h.not_waits_of_queue he hq) m, (call_post hok e m).ctl.cur⟩
        · exact ⟨.refl o _, rfl⟩
      refine hpost.1.trans (leaves_posted (fun hnest => ?_) hk)
      exact hpost.2 ▸ hr.other hnest (by simp) (by simp)
  | OSSemPost e =>
      have he : e ≠ o.sem := fun he => by simp [Owner.seen, he] at hseen
      have hpost : Leaves o s.kernel (s.kernel.OSSemPost e).kernel ∧
          (s.kernel.OSSemPost e).kernel.OSPrioCur = s.kernel.OSPrioCur := by
        rw [OSSemPost]
        split
        · exact ⟨.refl o _, rfl⟩
        · next hq =>
            exact ⟨leaves_post hok h (h.not_waits_of_sem he hq) 0, (call_post hok e 0).ctl.cur⟩
      refine hpost.1.trans (leaves_posted (fun hnest => ?_) hk)
      exact hpost.2 ▸ hr.other hnest (by simp) (by simp)
  | OSQPend e timeout =>
      obtain ⟨hmay, hk⟩ := Option.ite_none_right_eq_some.mp hk
      obtain rfl := Option.some.inj hk
      have he : e ≠ o.mbox := fun he => hr.queue (congrArg some he)
      rw [OSQPend]
      split
      · next hq =>
          exact leaves_pend (h.not_waits_of_queue he hq) hmay (hcall hmay (by simp) (by simp)) _
      · exact .refl o _
  | OSSemPend e timeout =>
      obtain ⟨hmay, hk⟩ := Option.ite_none_right_eq_some.mp hk
      obtain rfl := Option.some.inj hk
      have he : e ≠ o.sem := fun he => hr.sem (congrArg some he)
      rw [OSSemPend]
      split
      · exact .refl o _
      · next hq =>
          exact leaves_pend (h.not_waits_of_sem he hq) hmay (hcall hmay (by simp) (by simp)) _
  | OS_Sched inPend =>
      have hend : ∀ pc pc', s.kernel.runsAt pc = true →
          Leaves o s.kernel (s.kernel.OS_Sched.goOn pc') := by
        intro pc pc' hrun
        obtain ⟨hp, sv, heq⟩ := OS_Sched_eq s.kernel
        have hl := (Leaves.refl o s.kernel).OS_Sched
        rw [heq] at hl ⊢
        exact hl.goOn (hat pc hrun (by simp) (by simp))
      cases inPend with
      | none =>
          obtain ⟨hrun, hk⟩ := Option.ite_none_right_eq_some.mp hk
          exact Option.some.inj hk ▸ hend _ _ hrun
      | some e =>
          obtain ⟨hrun, hk⟩ := Option.ite_none_right_eq_some.mp hk
          exact Option.some.inj hk ▸ hend _ _ hrun
  | pendEnd e =>
      obtain ⟨hrun, hk⟩ := Option.ite_none_right_eq_some.mp hk
      obtain ⟨r, hend, rfl⟩ := Option.map_eq_some_iff.mp hk
      exact leaves_pendEnd hok h hrun (hat _ hrun (by simp) (by simp)) hend
  | OSTimeDly ticks =>
      obtain ⟨hmay, hk⟩ := Option.ite_none_right_eq_some.mp hk
      obtain rfl := Option.some.inj hk
      have hcur := hcall hmay (by simp) (by simp)
      obtain ⟨-, -, t, ht, -⟩ := runsAt_iff.mp (mayCall_iff.mp hmay).1
      rcases OSTimeDly_eq ht ticks with heq | heq
      · rw [heq]
        exact (Leaves.refl o _).goOn hcur
      · rw [heq]
        exact Leaves.goOn ⟨fun _ _ _ => rfl, Function.update_of_ne (Ne.symm hcur) _ _⟩ hcur
  | OSTaskSuspend =>
      obtain ⟨hmay, hk⟩ := Option.ite_none_right_eq_some.mp hk
      obtain rfl := Option.some.inj hk
      have hcur := hcall hmay (by simp) (by simp)
      rw [OSTaskSuspend]
      split
      · exact (Leaves.refl o _).goOn hcur
      · exact Leaves.goOn ⟨fun _ _ _ => rfl, Function.update_of_ne (Ne.symm hcur) _ _⟩ hcur
  | OSTaskCreate prio =>
      obtain ⟨hmay, hk⟩ := Option.ite_none_right_eq_some.mp hk
      obtain rfl := Option.some.inj hk
      have hcur := hcall hmay (by simp) (by simp)
      refine Leaves.goOn ?_ ((call_create hok prio).ctl.cur ▸ hcur)
      rcases create_eq s.kernel prio with heq | ⟨hnone, t', l, r, -, heq⟩
      · rw [heq]
        exact .refl o _
      · rw [heq]
        obtain ⟨t, ht, -⟩ := h.task
        refine ⟨fun _ _ _ => rfl, Function.update_of_ne (fun hp => ?_) _ _⟩
        rw [← hp, ht] at hnone
        cases hnone
  | OSSchedLock =>
      obtain ⟨-, hk⟩ := Option.ite_none_right_eq_some.mp hk
      obtain rfl := Option.some.inj hk
      obtain ⟨n, heq⟩ := OSSchedLock_eq s.kernel
      rw [heq]
      exact ⟨fun _ _ _ => rfl, rfl⟩
  | OSSchedUnlock =>
      obtain ⟨hmay, hk⟩ := Option.ite_none_right_eq_some.mp hk
      obtain rfl := Option.some.inj hk
      have hcur := hcall hmay (by simp) (by simp)
      obtain ⟨n, sched, heq⟩ := OSSchedUnlock_eq s.kernel
      rw [heq]
      exact Leaves.goOn ⟨fun _ _ _ => rfl, rfl⟩ hcur

/-! ## The clock and the scheduler -/

/-- The clock, the nesting of interrupts, the lock and the running task are as before. -/
structure Still (k k' : Kernel) : Prop where
  time : k'.OSTime = k.OSTime
  nest : k'.OSIntNesting = k.OSIntNesting
  lock : k'.OSLockNesting = k.OSLockNesting
  cur : k'.OSPrioCur = k.OSPrioCur

theorem Still.refl (k : Kernel) : Still k k := ⟨rfl, rfl, rfl, rfl⟩

theorem Still.goOn {pc : Pc} (h : Still k k') : Still k (k'.goOn pc) :=
  ⟨h.time, h.nest, h.lock, h.cur⟩

theorem Still.OS_Sched (h : Still k k') : Still k k'.OS_Sched := by
  obtain ⟨hp, sv, heq⟩ := OS_Sched_eq k'
  rw [heq]
  exact ⟨h.time, h.nest, h.lock, h.cur⟩

/-- A post takes no time and leaves the same task running. -/
theorem still_post (hok : Ok k) (e : Ev) (m : Msg) : Still k (k.post e m).kernel := by
  rcases post_cases hok.task e m with ⟨p, t, -, -, -, -, hpost⟩ |
    ⟨-, ⟨object, -, hpost⟩ | ⟨-, hpost⟩⟩ <;> rw [hpost] <;> exact ⟨rfl, rfl, rfl, rfl⟩

theorem still_posted {r : Posted} (h : Still k r.kernel) (hk : k.posted r = some k') :
    Still k k' := by
  rw [posted] at hk
  split at hk
  · obtain rfl := Option.some.inj hk
    split
    · exact h.OS_Sched
    · exact h
  · split at hk
    · obtain rfl := Option.some.inj hk
      exact h.goOn
    · cases hk

/-- And so does the first part of a pend, -/
theorem still_pend (hmay : k.mayCall = true) (e : Ev) (timeout : UInt32) :
    Still k (pended e (k.pend e timeout)) := by
  obtain ⟨hnest, -, t, ht, -⟩ := runsAt_iff.mp (mayCall_iff.mp hmay).1
  rcases pend_cases hnest ht e timeout with ⟨-, hpend⟩ |
    ⟨-, ⟨m, object, -, hpend⟩ | ⟨-, hpend⟩⟩ <;> rw [hpend] <;> exact ⟨rfl, rfl, rfl, rfl⟩

/-- and its end. -/
theorem still_pendEnd (hok : Ok k) (hrun : k.runsAt (.pendWake e) = true)
    {r : Msg × OsErr × Kernel} (hr : k.pendEnd e = some r) : Still k (r.2.2.goOn .code) := by
  obtain ⟨t, -, -, -, -, -, -, ⟨-, -, hend⟩ | ⟨-, -, hend⟩⟩ := pendEnd_cases hok hrun <;>
    obtain rfl := Option.some.inj (hr.symm.trans hend) <;> exact ⟨rfl, rfl, rfl, rfl⟩

/-- The steps that may change them. -/
def Moves : Event → Prop
  | .OSIntEnter | .OSIntExit | .OS_CPU_PendSVHandler | .OSTime | .OSSchedLock
  | .OSSchedUnlock => True
  | _ => False

/-- **No other step does.** -/
theorem still_step {ev : Event} (hok : Ok k) (hev : ¬ Moves ev) (hk : k.step ev = some k') :
    Still k k' := by
  cases ev with
  | OSIntEnter => exact absurd trivial hev
  | OSIntExit => exact absurd trivial hev
  | OS_CPU_PendSVHandler => exact absurd trivial hev
  | OSTime => exact absurd trivial hev
  | OSSchedLock => exact absurd trivial hev
  | OSSchedUnlock => exact absurd trivial hev
  | tickTcb p =>
      obtain ⟨-, hk⟩ := Option.ite_none_right_eq_some.mp hk
      obtain rfl := Option.some.inj hk
      rcases tickTcb_eq k p with heq | ⟨t, t', l, -, -, -, -, heq⟩ <;> rw [heq] <;>
        exact ⟨rfl, rfl, rfl, rfl⟩
  | OSQPost e m =>
      refine still_posted ?_ hk
      rcases OSQPost_cases k e m with ⟨e', m', heq⟩ | ⟨err, heq⟩ <;> rw [heq]
      · exact still_post hok e' m'
      · exact .refl k
  | OSSemPost e =>
      refine still_posted ?_ hk
      rcases OSSemPost_cases k e with ⟨e', m', heq⟩ | ⟨err, heq⟩ <;> rw [heq]
      · exact still_post hok e' m'
      · exact .refl k
  | OSQPend e timeout =>
      obtain ⟨hmay, hk⟩ := Option.ite_none_right_eq_some.mp hk
      obtain rfl := Option.some.inj hk
      rw [OSQPend]
      split
      · exact still_pend hmay e timeout
      · exact .refl k
  | OSSemPend e timeout =>
      obtain ⟨hmay, hk⟩ := Option.ite_none_right_eq_some.mp hk
      obtain rfl := Option.some.inj hk
      rw [OSSemPend]
      split
      · exact .refl k
      · exact still_pend hmay e timeout
  | OS_Sched inPend =>
      cases inPend with
      | none =>
          obtain ⟨-, hk⟩ := Option.ite_none_right_eq_some.mp hk
          exact Option.some.inj hk ▸ (Still.refl k).OS_Sched.goOn
      | some e =>
          obtain ⟨-, hk⟩ := Option.ite_none_right_eq_some.mp hk
          exact Option.some.inj hk ▸ (Still.refl k).OS_Sched.goOn
  | pendEnd e =>
      obtain ⟨hrun, hk⟩ := Option.ite_none_right_eq_some.mp hk
      obtain ⟨r, hend, rfl⟩ := Option.map_eq_some_iff.mp hk
      exact still_pendEnd hok hrun hend
  | OSTimeDly ticks =>
      obtain ⟨hmay, hk⟩ := Option.ite_none_right_eq_some.mp hk
      obtain rfl := Option.some.inj hk
      refine Still.goOn ?_
      obtain ⟨-, -, t, ht, -⟩ := runsAt_iff.mp (mayCall_iff.mp hmay).1
      rcases OSTimeDly_eq ht ticks with heq | heq <;> rw [heq] <;> exact ⟨rfl, rfl, rfl, rfl⟩
  | OSTaskSuspend =>
      obtain ⟨-, hk⟩ := Option.ite_none_right_eq_some.mp hk
      obtain rfl := Option.some.inj hk
      refine Still.goOn ?_
      rw [OSTaskSuspend]
      split
      · exact .refl k
      · exact ⟨rfl, rfl, rfl, rfl⟩
  | OSTaskCreate prio =>
      obtain ⟨-, hk⟩ := Option.ite_none_right_eq_some.mp hk
      obtain rfl := Option.some.inj hk
      refine Still.goOn ?_
      rcases create_eq k prio with heq | ⟨-, t, l, r, -, heq⟩ <;> rw [heq] <;>
        exact ⟨rfl, rfl, rfl, rfl⟩

/-- What a step does to the clock, to the nesting of interrupts, and to the running task and the
lock. -/
structure Ctl (k : Kernel) (ev : Event) (k' : Kernel) : Prop where
  time : k'.OSTime = k.OSTime + if ev = .OSTime then 1 else 0
  nest : (k'.OSIntNesting = k.OSIntNesting ∧ (ev = .OSTime → k.OSIntNesting ≠ 0)) ∨
    (ev = .OSIntEnter ∧ k'.OSIntNesting ≠ 0) ∨
    (ev = .OSIntExit ∧ 0 < k.OSIntNesting ∧ k'.OSIntNesting = k.OSIntNesting - 1)
  cur : (k'.OSPrioCur = k.OSPrioCur ∧ (k'.OSLockNesting = k.OSLockNesting ∨
      (k.OSIntNesting = 0 ∧ (ev = .OSSchedLock ∨ ev = .OSSchedUnlock)))) ∨
    (ev = .OS_CPU_PendSVHandler ∧ k'.OSLockNesting = 0)

/-- **Only these steps change them.** -/
theorem ctl_step {ev : Event} (hok : Ok k) (hk : k.step ev = some k') : k.Ctl ev k' := by
  have hadd : ∀ n : UInt32, n = n + 0 := fun n => (UInt32.add_zero n).symm
  by_cases hev : Moves ev
  · cases ev with
    | OSIntEnter =>
        obtain ⟨hnest, hk⟩ := Option.ite_none_right_eq_some.mp hk
        obtain rfl := Option.some.inj hk
        rw [OSIntEnter, if_pos hnest]
        exact ⟨hadd _, .inr (.inl ⟨rfl, succ_ne_zero hnest⟩), .inl ⟨rfl, .inl rfl⟩⟩
    | OSIntExit =>
        obtain ⟨hnest, hk⟩ := Option.ite_none_right_eq_some.mp hk
        obtain rfl := Option.some.inj hk
        rw [OSIntExit_eq hnest]
        have hs : Still { k with OSIntNesting := k.OSIntNesting - 1 } _ := (Still.refl _).OS_Sched
        exact ⟨hs.time.trans (hadd _), .inr (.inr ⟨rfl, hnest, hs.nest⟩),
          .inl ⟨hs.cur, .inl hs.lock⟩⟩
    | OS_CPU_PendSVHandler =>
        obtain ⟨⟨-, hsv⟩, hk⟩ := Option.ite_none_right_eq_some.mp hk
        obtain rfl := Option.some.inj hk
        exact ⟨hadd _, .inl ⟨rfl, by simp⟩, .inr ⟨rfl, hok.sched.pendSV_unlocked hsv⟩⟩
    | OSTime =>
        obtain ⟨hnest, hk⟩ := Option.ite_none_right_eq_some.mp hk
        obtain rfl := Option.some.inj hk
        exact ⟨by rw [if_pos rfl], .inl ⟨rfl, fun _ => UInt8.pos_iff_ne_zero.mp hnest⟩,
          .inl ⟨rfl, .inl rfl⟩⟩
    | OSSchedLock =>
        obtain ⟨hmay, hk⟩ := Option.ite_none_right_eq_some.mp hk
        obtain rfl := Option.some.inj hk
        have hnest := (runsAt_iff.mp (mayCall_iff.mp hmay).1).1
        obtain ⟨n, heq⟩ := OSSchedLock_eq k
        rw [heq]
        exact ⟨hadd _, .inl ⟨rfl, by simp⟩, .inl ⟨rfl, .inr ⟨hnest, .inl rfl⟩⟩⟩
    | OSSchedUnlock =>
        obtain ⟨hmay, hk⟩ := Option.ite_none_right_eq_some.mp hk
        obtain rfl := Option.some.inj hk
        have hnest := (runsAt_iff.mp (mayCall_iff.mp hmay).1).1
        obtain ⟨n, sched, heq⟩ := OSSchedUnlock_eq k
        rw [heq]
        exact ⟨hadd _, .inl ⟨rfl, by simp⟩, .inl ⟨rfl, .inr ⟨hnest, .inr rfl⟩⟩⟩
    | _ => exact absurd hev id
  · have hs := still_step hok hev hk
    have htime : ev ≠ .OSTime := by
      rintro rfl
      exact hev trivial
    refine ⟨?_, .inl ⟨hs.nest, fun heq => absurd heq htime⟩, .inl ⟨hs.cur, .inl hs.lock⟩⟩
    rw [if_neg htime]
    exact hs.time.trans (hadd _)

end Steps

end Kernel

end NetCamera.Rtos
