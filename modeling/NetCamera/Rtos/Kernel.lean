import NetCamera.Lib.PrioSet
import NetCamera.Lib.Ring
import NetCamera.Lib.Run

/-!
# NetCamera.Rtos.Kernel

The kernel with all of its tasks: ready list, wait lists, message queues, semaphores, delays, the
tick, the scheduler and the nesting of interrupts.

A task is known by its priority, which nothing here changes.  A service runs as the critical
sections it is made of, and an interrupt may come between any two of them; where a task is in
between is kept with its control block (`Pc`).  A context switch is asked for by `OS_Sched` or
`OSIntExit` and done by the PendSV exception, which waits until no other interrupt runs.
-/

namespace NetCamera.Rtos

/-! ## Constants -/

/-- A priority; the lower the number, the more urgent. -/
abbrev Prio := Fin (8 * 8)

/-- An index into `OSEventTbl`. -/
abbrev Ev := Fin 20

/-- `void *`. -/
abbrev Msg := UInt32

def OS_LOWEST_PRIO : Prio := 63

def OS_TASK_IDLE_PRIO : Prio := OS_LOWEST_PRIO

def OS_TASK_STAT_PRIO : Prio := 62

/-- `OS_MAX_TASKS + OS_N_SYS_TASKS`. -/
def OS_TCB_COUNT : Nat := 20 + 2

def OS_STAT_RDY : BitVec 8 := 0x00
def OS_STAT_SEM : BitVec 8 := 0x01
def OS_STAT_Q : BitVec 8 := 0x04
def OS_STAT_SUSPEND : BitVec 8 := 0x08

/-- `OS_STAT_SEM | OS_STAT_MBOX | OS_STAT_Q | OS_STAT_MUTEX | OS_STAT_FLAG`. -/
def OS_STAT_PEND_ANY : BitVec 8 := 0x01 ||| 0x02 ||| 0x04 ||| 0x10 ||| 0x20

/-- `OSTCBStatPend`. -/
inductive StatPend where
  | OS_STAT_PEND_OK
  | OS_STAT_PEND_TO
  | OS_STAT_PEND_ABORT
  deriving DecidableEq, Repr

/-- What a service returns or leaves in `*perr`. -/
inductive OsErr where
  | OS_ERR_NONE
  | OS_ERR_EVENT_TYPE
  | OS_ERR_PEND_ISR
  | OS_ERR_TIMEOUT
  | OS_ERR_PEND_LOCKED
  | OS_ERR_PEND_ABORT
  | OS_ERR_Q_FULL
  | OS_ERR_SEM_OVF
  | OS_ERR_PRIO_EXIST
  | OS_ERR_TASK_NO_MORE_TCB
  deriving DecidableEq, Repr

/-- `OSUnMapTbl`: the lowest set bit of the index. -/
def OSUnMapTbl : List (Fin 8) := [
  0, 0, 1, 0, 2, 0, 1, 0, 3, 0, 1, 0, 2, 0, 1, 0,
  4, 0, 1, 0, 2, 0, 1, 0, 3, 0, 1, 0, 2, 0, 1, 0,
  5, 0, 1, 0, 2, 0, 1, 0, 3, 0, 1, 0, 2, 0, 1, 0,
  4, 0, 1, 0, 2, 0, 1, 0, 3, 0, 1, 0, 2, 0, 1, 0,
  6, 0, 1, 0, 2, 0, 1, 0, 3, 0, 1, 0, 2, 0, 1, 0,
  4, 0, 1, 0, 2, 0, 1, 0, 3, 0, 1, 0, 2, 0, 1, 0,
  5, 0, 1, 0, 2, 0, 1, 0, 3, 0, 1, 0, 2, 0, 1, 0,
  4, 0, 1, 0, 2, 0, 1, 0, 3, 0, 1, 0, 2, 0, 1, 0,
  7, 0, 1, 0, 2, 0, 1, 0, 3, 0, 1, 0, 2, 0, 1, 0,
  4, 0, 1, 0, 2, 0, 1, 0, 3, 0, 1, 0, 2, 0, 1, 0,
  5, 0, 1, 0, 2, 0, 1, 0, 3, 0, 1, 0, 2, 0, 1, 0,
  4, 0, 1, 0, 2, 0, 1, 0, 3, 0, 1, 0, 2, 0, 1, 0,
  6, 0, 1, 0, 2, 0, 1, 0, 3, 0, 1, 0, 2, 0, 1, 0,
  4, 0, 1, 0, 2, 0, 1, 0, 3, 0, 1, 0, 2, 0, 1, 0,
  5, 0, 1, 0, 2, 0, 1, 0, 3, 0, 1, 0, 2, 0, 1, 0,
  4, 0, 1, 0, 2, 0, 1, 0, 3, 0, 1, 0, 2, 0, 1, 0]

/-- `OSUnMapTbl[b]`. -/
def unMap (b : BitVec 8) : Fin 8 := OSUnMapTbl.getD b.toNat 0

/-- The table gives the lowest set bit. -/
theorem isUnMap_unMap : PrioSet.IsUnMap unMap := by
  have hall : ∀ n : Fin (2 ^ 8), (BitVec.ofFin n ≠ 0#8 →
      (BitVec.ofFin n).getLsbD (unMap (BitVec.ofFin n)) = true) ∧
      ∀ i : Fin 8, (BitVec.ofFin n).getLsbD i = true → unMap (BitVec.ofFin n) ≤ i := by
    decide +kernel
  exact ⟨fun b => (hall b.toFin).1, fun b => (hall b.toFin).2⟩

/-! ## Queues and semaphores -/

/-- `OS_Q`; the pointers are indices into the storage at `OSQStart`, and `OSQEnd` is `OSQSize`. -/
structure OS_Q where
  OSQStart : Nat → Msg
  OSQSize : Nat
  OSQIn : Nat
  OSQOut : Nat
  OSQEntries : Nat
  entries_le : OSQEntries ≤ OSQSize
  out_lt : 0 < OSQSize → OSQOut < OSQSize
  in_eq : 0 < OSQSize → OSQIn = (OSQOut + OSQEntries) % OSQSize

namespace OS_Q

/-- The messages in the queue, the oldest first. -/
def contents (pq : OS_Q) : List Msg :=
  Ring.contents pq.OSQStart pq.OSQSize pq.OSQOut pq.OSQEntries

/-- The queue that `OSQCreate` makes over the `size` cells at `start`. -/
def create (start : Nat → Msg) (size : Nat) : OS_Q where
  OSQStart := start
  OSQSize := size
  OSQIn := 0
  OSQOut := 0
  OSQEntries := 0
  entries_le := Nat.zero_le _
  out_lt h := h
  in_eq h := (Nat.mod_eq_of_lt h).symm

/-- `*pq->OSQIn++ = pmsg; pq->OSQEntries++;`, and `OSQIn` back to the start from the end. -/
def put (pq : OS_Q) (pmsg : Msg) (h : pq.OSQEntries < pq.OSQSize) : OS_Q where
  OSQStart := Function.update pq.OSQStart pq.OSQIn pmsg
  OSQSize := pq.OSQSize
  OSQIn := Ring.next pq.OSQSize pq.OSQIn
  OSQOut := pq.OSQOut
  OSQEntries := pq.OSQEntries + 1
  entries_le := h
  out_lt := pq.out_lt
  in_eq hpos := by
    have hin := pq.in_eq hpos
    rw [Ring.next_eq_mod (hin ▸ Nat.mod_lt _ hpos), hin, Nat.mod_add_mod, Nat.add_assoc]

/-- `pmsg = *pq->OSQOut++; pq->OSQEntries--;`, and `OSQOut` back to the start from the end. -/
def take (pq : OS_Q) (h : 0 < pq.OSQEntries) : Msg × OS_Q :=
  (pq.OSQStart pq.OSQOut,
    { OSQStart := pq.OSQStart
      OSQSize := pq.OSQSize
      OSQIn := pq.OSQIn
      OSQOut := Ring.next pq.OSQSize pq.OSQOut
      OSQEntries := pq.OSQEntries - 1
      entries_le := (Nat.sub_le _ _).trans pq.entries_le
      out_lt := fun hpos => Ring.next_lt (pq.out_lt hpos)
      in_eq := fun hpos => by
        rw [pq.in_eq hpos, Ring.next_mod, Nat.sub_add_cancel h] })

theorem length_contents (pq : OS_Q) : pq.contents.length = pq.OSQEntries :=
  Ring.length_contents _ _ _ _

/-- A put appends. -/
theorem contents_put (pq : OS_Q) (pmsg : Msg) (h : pq.OSQEntries < pq.OSQSize) :
    (pq.put pmsg h).contents = pq.contents ++ [pmsg] := by
  have hin := pq.in_eq (by omega)
  calc (pq.put pmsg h).contents
      = Ring.contents (Function.update pq.OSQStart pq.OSQIn pmsg) pq.OSQSize pq.OSQOut
          (pq.OSQEntries + 1) := rfl
    _ = pq.contents ++ [pmsg] := by rw [hin, Ring.contents_put pq.OSQStart h pmsg, contents]

/-- A take removes the oldest message. -/
theorem contents_take (pq : OS_Q) (h : 0 < pq.OSQEntries) :
    pq.contents = (pq.take h).1 :: (pq.take h).2.contents := by
  have hout := pq.out_lt (h.trans_le pq.entries_le)
  have htake := Ring.contents_take pq.OSQStart hout (pq.OSQEntries - 1)
  rwa [Nat.sub_add_cancel h] at htake

end OS_Q

/-- What an `OS_EVENT` stands for: its `OSEventType` with `OSEventPtr` or `OSEventCnt`. -/
inductive Object where
  | queue (pq : OS_Q)
  | sem (OSEventCnt : UInt16)

namespace Object

/-- The bit of `OSTCBStat` for a task that waits. -/
def stat : Object → BitVec 8
  | queue _ => OS_STAT_Q
  | sem _ => OS_STAT_SEM

def isQueue : Object → Bool
  | queue _ => true
  | sem _ => false

/-- What a post to a full object returns. -/
def full : Object → OsErr
  | queue _ => .OS_ERR_Q_FULL
  | sem _ => .OS_ERR_SEM_OVF

/-- A message for a task that need not wait. -/
def take : Object → Option (Msg × Object)
  | queue pq =>
      if h : 0 < pq.OSQEntries then some ((pq.take h).1, queue (pq.take h).2) else none
  | sem OSEventCnt => if 0 < OSEventCnt then some (0, sem (OSEventCnt - 1)) else none

/-- A message that no task waits for; `none` where there is no room. -/
def put (pmsg : Msg) : Object → Option Object
  | queue pq =>
      if h : pq.OSQEntries < pq.OSQSize then some (queue (pq.put pmsg h)) else none
  | sem OSEventCnt => if OSEventCnt < 65535 then some (sem (OSEventCnt + 1)) else none

/-- What the object holds, the oldest first; a semaphore holds null messages. -/
def contents : Object → List Msg
  | queue pq => pq.contents
  | sem OSEventCnt => List.replicate OSEventCnt.toNat 0

end Object

/-- `OS_EVENT`: the wait list `OSEventGrp`, `OSEventTbl` and the object. -/
structure OS_EVENT where
  OSEventTbl : PrioSet 8
  object : Object

/-! ## Tasks -/

/-- Where a task is, as far as the services matter: in code of its own, before the call of
`OS_Sched` that ends a service, before the one inside a pend, or behind that one. -/
inductive Pc where
  | code
  | sched
  | pendSched (e : Ev)
  | pendWake (e : Ev)
  deriving DecidableEq, Repr

/-- `OS_TCB`; `OSTCBStkPtr` stands for the saved context. -/
structure OS_TCB where
  OSTCBStat : BitVec 8
  OSTCBStatPend : StatPend
  OSTCBDly : UInt32
  OSTCBMsg : Msg
  OSTCBStkPtr : Pc
  deriving DecidableEq

/-- The global variables; `OSRdyTbl` stands for `OSRdyGrp` and `OSRdyTbl`, and `pendSV` is
`NVIC_PENDSVSET`. -/
structure Kernel where
  OSTime : UInt32
  OSIntNesting : UInt8
  OSLockNesting : UInt8
  OSPrioCur : Prio
  OSPrioHighRdy : Prio
  OSRdyTbl : PrioSet 8
  OSTCBPrioTbl : Prio → Option OS_TCB
  OSTCBList : List Prio
  OSEventTbl : Ev → OS_EVENT
  pendSV : Bool

namespace Kernel

/-- `OS_InitMisc` and `OS_InitRdyList`, with given objects that nobody waits for. -/
def OS_InitMisc (objects : Ev → Object) : Kernel where
  OSTime := 0
  OSIntNesting := 0
  OSLockNesting := 0
  OSPrioCur := 0
  OSPrioHighRdy := 0
  OSRdyTbl := .empty 8
  OSTCBPrioTbl := fun _ => none
  OSTCBList := []
  OSEventTbl := fun e => ⟨.empty 8, objects e⟩
  pendSV := false

/-- `OSTCBCur`. -/
def OSTCBCur (k : Kernel) : Option OS_TCB := k.OSTCBPrioTbl k.OSPrioCur

/-- Writes the control block of a task. -/
def setTcb (k : Kernel) (p : Prio) (t : OS_TCB) : Kernel :=
  { k with OSTCBPrioTbl := Function.update k.OSTCBPrioTbl p (some t) }

/-- Writes an event control block. -/
def setEvent (k : Kernel) (e : Ev) (v : OS_EVENT) : Kernel :=
  { k with OSEventTbl := Function.update k.OSEventTbl e v }

/-- The running task goes on at `pc`. -/
def goOn (k : Kernel) (pc : Pc) : Kernel :=
  { k with
    OSTCBPrioTbl := Function.update k.OSTCBPrioTbl k.OSPrioCur
      (k.OSTCBCur.map fun t => { t with OSTCBStkPtr := pc }) }

end Kernel

end NetCamera.Rtos
