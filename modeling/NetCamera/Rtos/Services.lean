import NetCamera.Rtos.Kernel

/-!
# NetCamera.Rtos.Services

The services of the kernel, one definition for each critical section, and the machine that runs
them.

A step is what the running task does next, a call made by an interrupt service routine, or the
PendSV exception (`Kernel.step`).  What happens to messages in a step is written
down beside it (`Kernel.seen`): a post that was accepted, a message handed to a task, a pend that
returned one.
-/

namespace NetCamera.Rtos

namespace Kernel

/-! ## The scheduler -/

/-- `OS_SchedNew`. -/
def OS_SchedNew (k : Kernel) : Kernel :=
  { k with OSPrioHighRdy := PrioSet.least unMap k.OSRdyTbl }

/-- `OS_Sched`; `OS_TASK_SW` sets the PendSV exception pending. -/
def OS_Sched (k : Kernel) : Kernel :=
  if k.OSIntNesting = 0 then
    if k.OSLockNesting = 0 then
      let k' := k.OS_SchedNew
      if k'.OSPrioHighRdy ≠ k'.OSPrioCur then { k' with pendSV := true } else k'
    else k
  else k

def OSIntEnter (k : Kernel) : Kernel :=
  if k.OSIntNesting < 255 then { k with OSIntNesting := k.OSIntNesting + 1 } else k

/-- `OSIntExit`; `OSIntCtxSw` sets the PendSV exception pending. -/
def OSIntExit (k : Kernel) : Kernel :=
  let k := if 0 < k.OSIntNesting then { k with OSIntNesting := k.OSIntNesting - 1 } else k
  if k.OSIntNesting = 0 then
    if k.OSLockNesting = 0 then
      let k' := k.OS_SchedNew
      if k'.OSPrioHighRdy ≠ k'.OSPrioCur then { k' with pendSV := true } else k'
    else k
  else k

/-- `OS_CPU_PendSVHandler`. -/
def OS_CPU_PendSVHandler (k : Kernel) : Kernel :=
  { k with OSPrioCur := k.OSPrioHighRdy, pendSV := false }

def OSSchedLock (k : Kernel) : Kernel :=
  if k.OSIntNesting = 0 then
    if k.OSLockNesting < 255 then { k with OSLockNesting := k.OSLockNesting + 1 } else k
  else k

/-- `OSSchedUnlock` up to `OS_Sched`, and whether that is called. -/
def OSSchedUnlock (k : Kernel) : Kernel × Bool :=
  if k.OSIntNesting = 0 then
    if 0 < k.OSLockNesting then
      let k' := { k with OSLockNesting := k.OSLockNesting - 1 }
      (k', k'.OSLockNesting = 0)
    else (k, false)
  else (k, false)

/-! ## Wait lists -/

/-- `OSRdyGrp |= BitY; OSRdyTbl[Y] |= BitX`, unless the task is suspended. -/
def makeReady (k : Kernel) (p : Prio) (t : OS_TCB) : Kernel :=
  if t.OSTCBStat &&& OS_STAT_SUSPEND = OS_STAT_RDY then
    { k with OSRdyTbl := k.OSRdyTbl.insert p }
  else k

/-- `OS_EventTaskRemove`. -/
def OS_EventTaskRemove (k : Kernel) (p : Prio) (e : Ev) : Kernel :=
  k.setEvent e { k.OSEventTbl e with OSEventTbl := (k.OSEventTbl e).OSEventTbl.remove p }

/-- `OS_EventTaskWait` of the running task. -/
def OS_EventTaskWait (k : Kernel) (e : Ev) : Kernel :=
  let k := k.setEvent e
    { k.OSEventTbl e with OSEventTbl := (k.OSEventTbl e).OSEventTbl.insert k.OSPrioCur }
  { k with OSRdyTbl := k.OSRdyTbl.remove k.OSPrioCur }

/-- `OS_EventTaskRdy`: the priority of the task that was made ready, and the kernel.  The code
does not ask whether the task exists; of one that does not, nothing is changed here. -/
def OS_EventTaskRdy (k : Kernel) (e : Ev) (pmsg : Msg) (msk : BitVec 8) (pend_stat : StatPend) :
    Prio × Kernel :=
  let prio := PrioSet.least unMap (k.OSEventTbl e).OSEventTbl
  match k.OSTCBPrioTbl prio with
  | none => (prio, k)
  | some ptcb =>
      let t : OS_TCB :=
        { ptcb with
          OSTCBDly := 0
          OSTCBMsg := pmsg
          OSTCBStat := ptcb.OSTCBStat &&& ~~~ msk
          OSTCBStatPend := pend_stat }
      (prio, (((k.setTcb prio t).makeReady prio t).OS_EventTaskRemove prio e))

/-! ## Posts -/

/-- The outcome of a post up to `OS_Sched`, which is called when a task was made ready. -/
structure Posted where
  kernel : Kernel
  err : OsErr
  handedTo : Option Prio

/-- The critical section of `OSQPost` and `OSSemPost`. -/
def post (k : Kernel) (e : Ev) (pmsg : Msg) : Posted :=
  if (k.OSEventTbl e).OSEventTbl.grp ≠ 0 then
    let r := k.OS_EventTaskRdy e pmsg (k.OSEventTbl e).object.stat .OS_STAT_PEND_OK
    ⟨r.2, .OS_ERR_NONE, some r.1⟩
  else
    match (k.OSEventTbl e).object.put pmsg with
    | none => ⟨k, (k.OSEventTbl e).object.full, none⟩
    | some object => ⟨k.setEvent e { k.OSEventTbl e with object }, .OS_ERR_NONE, none⟩

def OSQPost (k : Kernel) (e : Ev) (pmsg : Msg) : Posted :=
  if (k.OSEventTbl e).object.isQueue then k.post e pmsg else ⟨k, .OS_ERR_EVENT_TYPE, none⟩

def OSSemPost (k : Kernel) (e : Ev) : Posted :=
  if (k.OSEventTbl e).object.isQueue then ⟨k, .OS_ERR_EVENT_TYPE, none⟩ else k.post e 0

/-! ## Pends -/

/-- The outcome of the first part of a pend: it returns, or the task waits. -/
inductive Pended where
  | returns (pmsg : Msg) (err : OsErr) (k : Kernel)
  | waits (k : Kernel)

/-- `OSQPend` and `OSSemPend` from their checks to the end of the first critical section. -/
def pend (k : Kernel) (e : Ev) (timeout : UInt32) : Pended :=
  if 0 < k.OSIntNesting then .returns 0 .OS_ERR_PEND_ISR k
  else if 0 < k.OSLockNesting then .returns 0 .OS_ERR_PEND_LOCKED k
  else
    match (k.OSEventTbl e).object.take with
    | some (pmsg, object) =>
        .returns pmsg .OS_ERR_NONE (k.setEvent e { k.OSEventTbl e with object })
    | none =>
        match k.OSTCBCur with
        | none => .waits k
        | some ptcb =>
            .waits ((k.setTcb k.OSPrioCur
              { ptcb with
                OSTCBStat := ptcb.OSTCBStat ||| (k.OSEventTbl e).object.stat
                OSTCBStatPend := .OS_STAT_PEND_OK
                OSTCBDly := timeout }).OS_EventTaskWait e)

def OSQPend (k : Kernel) (e : Ev) (timeout : UInt32) : Pended :=
  if (k.OSEventTbl e).object.isQueue then k.pend e timeout
  else .returns 0 .OS_ERR_EVENT_TYPE k

def OSSemPend (k : Kernel) (e : Ev) (timeout : UInt32) : Pended :=
  if (k.OSEventTbl e).object.isQueue then .returns 0 .OS_ERR_EVENT_TYPE k
  else k.pend e timeout

/-- The critical section of a pend behind `OS_Sched`: what it returns, `*perr`, and the kernel. -/
def pendEnd (k : Kernel) (e : Ev) : Option (Msg × OsErr × Kernel) :=
  k.OSTCBCur.map fun ptcb =>
    let t : OS_TCB :=
      { ptcb with
        OSTCBStat := OS_STAT_RDY
        OSTCBStatPend := .OS_STAT_PEND_OK
        OSTCBMsg := 0 }
    match ptcb.OSTCBStatPend with
    | .OS_STAT_PEND_OK => (ptcb.OSTCBMsg, .OS_ERR_NONE, k.setTcb k.OSPrioCur t)
    | .OS_STAT_PEND_ABORT => (0, .OS_ERR_PEND_ABORT, k.setTcb k.OSPrioCur t)
    | .OS_STAT_PEND_TO =>
        (0, .OS_ERR_TIMEOUT, (k.OS_EventTaskRemove k.OSPrioCur e).setTcb k.OSPrioCur t)

/-! ## Time and tasks -/

/-- `OSTimeTick` at one control block. -/
def tickTcb (k : Kernel) (p : Prio) : Kernel :=
  match k.OSTCBPrioTbl p with
  | none => k
  | some ptcb =>
      if ptcb.OSTCBDly ≠ 0 then
        let t := { ptcb with OSTCBDly := ptcb.OSTCBDly - 1 }
        if t.OSTCBDly = 0 then
          let t :=
            if t.OSTCBStat &&& OS_STAT_PEND_ANY ≠ OS_STAT_RDY then
              { t with
                OSTCBStat := t.OSTCBStat &&& ~~~ OS_STAT_PEND_ANY
                OSTCBStatPend := StatPend.OS_STAT_PEND_TO }
            else { t with OSTCBStatPend := .OS_STAT_PEND_OK }
          (k.setTcb p t).makeReady p t
        else k.setTcb p t
      else k

/-- `OSTimeDly` up to `OS_Sched`, and whether that is called. -/
def OSTimeDly (k : Kernel) (ticks : UInt32) : Kernel × Bool :=
  if 0 < k.OSIntNesting then (k, false)
  else if 0 < k.OSLockNesting then (k, false)
  else if 0 < ticks then
    match k.OSTCBCur with
    | none => (k, false)
    | some ptcb =>
        ({ k with OSRdyTbl := k.OSRdyTbl.remove k.OSPrioCur }.setTcb k.OSPrioCur
          { ptcb with OSTCBDly := ticks }, true)
  else (k, false)

/-- `OSTaskSuspend(OS_PRIO_SELF)` up to `OS_Sched`. -/
def OSTaskSuspend (k : Kernel) : Kernel :=
  match k.OSTCBCur with
  | none => k
  | some ptcb =>
      { k with OSRdyTbl := k.OSRdyTbl.remove k.OSPrioCur }.setTcb k.OSPrioCur
        { ptcb with OSTCBStat := ptcb.OSTCBStat ||| OS_STAT_SUSPEND }

/-- `OS_TCBInit`; `none` when no control block is free. -/
def OS_TCBInit (k : Kernel) (prio : Prio) : Option Kernel :=
  if k.OSTCBList.length < OS_TCB_COUNT then
    some ({ k with
      OSTCBList := prio :: k.OSTCBList
      OSRdyTbl := k.OSRdyTbl.insert prio }.setTcb prio ⟨OS_STAT_RDY, .OS_STAT_PEND_OK, 0, 0, .code⟩)
  else none

/-- `OSTaskCreate` from a task up to `OS_Sched`: the result and the kernel. -/
def OSTaskCreate (k : Kernel) (prio : Prio) : OsErr × Kernel :=
  if (k.OSTCBPrioTbl prio).isNone then
    match k.OS_TCBInit prio with
    | some k' => (.OS_ERR_NONE, k')
    | none => (.OS_ERR_TASK_NO_MORE_TCB, k)
  else (.OS_ERR_PRIO_EXIST, k)

/-- `OSInit`: the idle and the statistic task are created. -/
def OSInit (objects : Ev → Object) : Kernel :=
  (((OS_InitMisc objects).OSTaskCreate OS_TASK_IDLE_PRIO).2.OSTaskCreate OS_TASK_STAT_PRIO).2

/-- `OSStart`; `OSStartHighRdy` sets the PendSV exception pending. -/
def OSStart (k : Kernel) : Kernel :=
  let k := k.OS_SchedNew
  { k with OSPrioCur := k.OSPrioHighRdy, pendSV := true }

/-- The start of multitasking: `OSInit`, the tasks that `main` creates, `OSStart`. -/
def boot (objects : Ev → Object) (prios : List Prio) : Kernel :=
  (prios.foldl (fun k p => (k.OSTaskCreate p).2) (OSInit objects)).OSStart

/-! ## The machine -/

/-- Whether the running task is at `pc` and may go on: no interrupt runs and no switch is due. -/
def runsAt (k : Kernel) (pc : Pc) : Bool :=
  k.OSIntNesting = 0 && !k.pendSV && (k.OSTCBCur.map (·.OSTCBStkPtr)) = some pc

/-- A call of a task other than the idle task, which makes none. -/
def mayCall (k : Kernel) : Bool := k.runsAt .code && k.OSPrioCur ≠ OS_TASK_IDLE_PRIO

/-- Behind a critical section: at `OS_Sched` or in the task's own code. -/
def goOnAt (k : Kernel) (sched : Bool) : Kernel := k.goOn (if sched then .sched else .code)

/-- A task goes on after the first part of a pend. -/
def pended (e : Ev) : Pended → Kernel
  | .returns _ _ k => k
  | .waits k => k.goOn (.pendSched e)

/-- A post by the running task, or by an interrupt service routine, whose `OS_Sched` does
nothing. -/
def posted (k : Kernel) (r : Posted) : Option Kernel :=
  if 0 < k.OSIntNesting then
    some (if r.handedTo.isSome then r.kernel.OS_Sched else r.kernel)
  else if k.mayCall then some (r.kernel.goOnAt r.handedTo.isSome)
  else none

end Kernel

/-- What can happen; `OS_Sched` stands at the end of a service or inside a pend. -/
inductive Event where
  | OSIntEnter
  | OSIntExit
  | OS_CPU_PendSVHandler
  | OSTime
  | tickTcb (p : Prio)
  | OSQPost (e : Ev) (pmsg : Msg)
  | OSSemPost (e : Ev)
  | OSQPend (e : Ev) (timeout : UInt32)
  | OSSemPend (e : Ev) (timeout : UInt32)
  | OS_Sched (inPend : Option Ev)
  | pendEnd (e : Ev)
  | OSTimeDly (ticks : UInt32)
  | OSTaskSuspend
  | OSTaskCreate (prio : Prio)
  | OSSchedLock
  | OSSchedUnlock
  deriving DecidableEq, Repr

namespace Kernel

/-- One step; `none` where it cannot happen.  Interrupts nest at most 255 deep, as `OSIntEnter`
demands of its callers. -/
def step (k : Kernel) : Event → Option Kernel
  | .OSIntEnter => if k.OSIntNesting < 255 then some k.OSIntEnter else none
  | .OSIntExit => if 0 < k.OSIntNesting then some k.OSIntExit else none
  | .OS_CPU_PendSVHandler =>
      if k.OSIntNesting = 0 ∧ k.pendSV then some k.OS_CPU_PendSVHandler else none
  | .OSTime => if 0 < k.OSIntNesting then some { k with OSTime := k.OSTime + 1 } else none
  | .tickTcb p =>
      if 0 < k.OSIntNesting ∧ p ≠ OS_TASK_IDLE_PRIO then some (k.tickTcb p) else none
  | .OSQPost e pmsg => k.posted (k.OSQPost e pmsg)
  | .OSSemPost e => k.posted (k.OSSemPost e)
  | .OSQPend e timeout => if k.mayCall then some (pended e (k.OSQPend e timeout)) else none
  | .OSSemPend e timeout => if k.mayCall then some (pended e (k.OSSemPend e timeout)) else none
  | .OS_Sched none => if k.runsAt .sched then some (k.OS_Sched.goOn .code) else none
  | .OS_Sched (some e) =>
      if k.runsAt (.pendSched e) then some (k.OS_Sched.goOn (.pendWake e)) else none
  | .pendEnd e =>
      if k.runsAt (.pendWake e) then (k.pendEnd e).map fun r => r.2.2.goOn .code else none
  | .OSTimeDly ticks =>
      if k.mayCall then some ((k.OSTimeDly ticks).1.goOnAt (k.OSTimeDly ticks).2) else none
  | .OSTaskSuspend => if k.mayCall then some (k.OSTaskSuspend.goOn .sched) else none
  | .OSTaskCreate prio =>
      if k.mayCall then
        some ((k.OSTaskCreate prio).2.goOnAt ((k.OSTaskCreate prio).1 = .OS_ERR_NONE))
      else none
  | .OSSchedLock => if k.mayCall then some k.OSSchedLock else none
  | .OSSchedUnlock =>
      if k.mayCall then some (k.OSSchedUnlock.1.goOnAt k.OSSchedUnlock.2) else none

end Kernel

end NetCamera.Rtos
