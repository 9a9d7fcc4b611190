import NetCamera.Rtos.Sched

/-!
# NetCamera.Rtos.Delivery

What becomes of the messages.

Along a run three things are seen of an event: a post that was accepted, a message handed to a
task (out of the object, or straight into the control block of a task that waits), and a pend
that returned one.  The books always balance (`Ledger`): what was there at the start and what was
accepted since is, in this order, what was handed over and what the object still holds; and
what was handed to a task is what its pends returned, and the one message that lies in its
control block while it is on its way out of a pend.
-/

namespace NetCamera.Rtos

open Run

/-- What is seen of the messages; a post has no `poster` when an interrupt service routine made
it. -/
inductive Seen where
  | accepted (e : Ev) (poster : Option Prio) (m : Msg)
  | handed (e : Ev) (p : Prio) (m : Msg)
  | returned (e : Ev) (p : Prio) (m : Msg)
  deriving DecidableEq, Repr

namespace Seen

/-- The messages whose post an event accepted. -/
def acceptedBy (e : Ev) (os : List Seen) : List Msg :=
  os.filterMap fun
    | accepted e' _ m => if e' = e then some m else none
    | _ => none

/-- The messages an event handed out, and to whom. -/
def handedBy (e : Ev) (os : List Seen) : List (Prio × Msg) :=
  os.filterMap fun
    | handed e' p m => if e' = e then some (p, m) else none
    | _ => none

/-- The messages that the pends of a task on an event returned. -/
def returnedTo (e : Ev) (p : Prio) (os : List Seen) : List Msg :=
  os.filterMap fun
    | returned e' p' m => if e' = e ∧ p' = p then some m else none
    | _ => none

/-- The messages an event handed to a task. -/
def handedTo (e : Ev) (p : Prio) (os : List Seen) : List Msg :=
  ((handedBy e os).filter fun r => r.1 = p).map Prod.snd

@[simp] theorem acceptedBy_append (e : Ev) (os os' : List Seen) :
    acceptedBy e (os ++ os') = acceptedBy e os ++ acceptedBy e os' := List.filterMap_append ..

@[simp] theorem handedBy_append (e : Ev) (os os' : List Seen) :
    handedBy e (os ++ os') = handedBy e os ++ handedBy e os' := List.filterMap_append ..

@[simp] theorem returnedTo_append (e : Ev) (p : Prio) (os os' : List Seen) :
    returnedTo e p (os ++ os') = returnedTo e p os ++ returnedTo e p os' :=
  List.filterMap_append ..

@[simp] theorem handedTo_append (e : Ev) (p : Prio) (os os' : List Seen) :
    handedTo e p (os ++ os') = handedTo e p os ++ handedTo e p os' := by
  rw [handedTo, handedBy_append, List.filter_append, List.map_append, handedTo, handedTo]

end Seen

namespace Kernel

/-- Who makes a call. -/
def caller (k : Kernel) : Option Prio := if 0 < k.OSIntNesting then none else some k.OSPrioCur

/-- What is seen of a post. -/
def seenPost (k : Kernel) (e : Ev) (pmsg : Msg) (r : Posted) : List Seen :=
  if r.err = .OS_ERR_NONE then
    .accepted e k.caller pmsg :: r.handedTo.toList.map fun p => .handed e p pmsg
  else []

/-- What is seen of the first part of a pend. -/
def seenPend (k : Kernel) (e : Ev) : Pended → List Seen
  | .returns m .OS_ERR_NONE _ => [.handed e k.OSPrioCur m, .returned e k.OSPrioCur m]
  | _ => []

/-- What is seen of the messages in a step. -/
def seen (k : Kernel) : Event → List Seen
  | .OSQPost e pmsg => k.seenPost e pmsg (k.OSQPost e pmsg)
  | .OSSemPost e => k.seenPost e 0 (k.OSSemPost e)
  | .OSQPend e timeout => k.seenPend e (k.OSQPend e timeout)
  | .OSSemPend e timeout => k.seenPend e (k.OSSemPend e timeout)
  | .pendEnd e =>
      match k.pendEnd e with
      | some (m, .OS_ERR_NONE, _) => [.returned e k.OSPrioCur m]
      | _ => []
  | _ => []

/-- The message that lies in a control block on the way out of a pend. -/
def inFlight (e : Ev) (t : OS_TCB) : List Msg :=
  if (t.OSTCBStkPtr = .pendSched e ∨ t.OSTCBStkPtr = .pendWake e) ∧
      t.OSTCBStat = OS_STAT_RDY ∧ t.OSTCBStatPend = .OS_STAT_PEND_OK then [t.OSTCBMsg]
  else []

/-- The same for the task of a priority. -/
def flight (k : Kernel) (e : Ev) (p : Prio) : List Msg :=
  (k.OSTCBPrioTbl p).elim [] (inFlight e)

/-- **The books of an event**, opened with `c` in it. -/
structure Ledger (c : List Msg) (e : Ev) (k : Kernel) (os : List Seen) : Prop where
  stored : c ++ Seen.acceptedBy e os =
    (Seen.handedBy e os).map Prod.snd ++ (k.OSEventTbl e).object.contents
  sent : ∀ p, Seen.handedTo e p os = Seen.returnedTo e p os ++ k.flight e p

/-! ## Steps that move no message -/

section Steps

variable {k k' : Kernel} {e : Ev} {c : List Msg} {os : List Seen}

/-- A step of which nothing is seen and that moves nothing. -/
theorem Ledger.stay (h : Ledger c e k os)
    (hobj : (k'.OSEventTbl e).object = (k.OSEventTbl e).object)
    (hflight : ∀ p, k'.flight e p = k.flight e p) : Ledger c e k' os :=
  ⟨by rw [hobj]; exact h.stored, fun p => by rw [hflight]; exact h.sent p⟩

theorem flight_of_tcb (h : k'.OSTCBPrioTbl = k.OSTCBPrioTbl) (p : Prio) :
    k'.flight e p = k.flight e p := by
  rw [flight, h, flight]

theorem flight_of_some {p : Prio} {t : OS_TCB} (ht : k.OSTCBPrioTbl p = some t) :
    k.flight e p = inFlight e t := by
  rw [flight, ht, Option.elim_some]

/-- A task outside of the pends on an event has nothing of it on the way. -/
theorem inFlight_of_pc {t : OS_TCB} (h₁ : t.OSTCBStkPtr ≠ .pendSched e)
    (h₂ : t.OSTCBStkPtr ≠ .pendWake e) : inFlight e t = [] :=
  if_neg fun h => h.1.elim h₁ h₂

/-- A task that still waits has nothing on the way. -/
theorem InPend.inFlight_nil {p : Prio} {t : OS_TCB} (h : InPend k e p t) (hw : p ∈ k.waiting e) :
    inFlight e t = [] := by
  refine if_neg fun hin => ?_
  cases h with
  | waits hstat => exact kind_ne_rdy k e (hstat.symm.trans hin.2.1)
  | timedOut _ _ hpend =>
      rw [hpend] at hin
      cases hin.2.2
  | handed _ _ _ hno => exact hno hw

/-- The control block of one task changes. -/
theorem flight_update {p : Prio} {t : OS_TCB}
    (h : k'.OSTCBPrioTbl = Function.update k.OSTCBPrioTbl p (some t)) (q : Prio) :
    k'.flight e q = if q = p then inFlight e t else k.flight e q := by
  rw [flight, h]
  by_cases hq : q = p
  · rw [if_pos hq, hq, Function.update_self, Option.elim_some]
  · rw [if_neg hq, Function.update_of_ne hq, flight]

/-- What is on the way stays while the task of a changed control block has as much of it. -/
theorem flight_same {p : Prio} {t t' : OS_TCB} (ht : k.OSTCBPrioTbl p = some t)
    (h : k'.OSTCBPrioTbl = Function.update k.OSTCBPrioTbl p (some t'))
    (hsame : inFlight e t' = inFlight e t) (q : Prio) : k'.flight e q = k.flight e q := by
  rw [flight_update h, hsame]
  split
  · next hq => rw [hq, flight_of_some ht]
  · rfl

/-- The running task goes on from code of its own to the end of a service. -/
theorem flight_goOnAt {t : OS_TCB} (ht : k.OSTCBPrioTbl k.OSPrioCur = some t)
    (hat : t.OSTCBStkPtr = .code) (sched : Bool) (p : Prio) :
    (k.goOnAt sched).flight e p = k.flight e p := by
  rw [goOnAt]
  refine flight_same ht (tcb_goOn ht _) ?_ p
  rw [inFlight_of_pc (t := t) (by simp [hat]) (by simp [hat])]
  split <;> exact inFlight_of_pc (by simp) (by simp)

theorem tcb_setTcb_goOn (k : Kernel) (t : OS_TCB) (pc : Pc) :
    ((k.setTcb k.OSPrioCur t).goOn pc).OSTCBPrioTbl =
      Function.update k.OSTCBPrioTbl k.OSPrioCur (some { t with OSTCBStkPtr := pc }) :=
  (tcb_goOn (Function.update_self ..) pc).trans (Function.update_idem ..)

/-! ## Posts and pends -/

theorem served_inFlight {t : OS_TCB} {pmsg : Msg} {e' : Ev}
    (hpc : t.OSTCBStkPtr = .pendSched e' ∨ t.OSTCBStkPtr = .pendWake e') :
    inFlight e (served t pmsg) = if e' = e then [pmsg] else [] := by
  rw [inFlight]
  have hpc' : (served t pmsg).OSTCBStkPtr = t.OSTCBStkPtr := rfl
  by_cases he : e' = e
  · subst he
    rw [if_pos rfl, if_pos ⟨by rw [hpc']; exact hpc, rfl, rfl⟩]
    rfl
  · rw [if_neg he, if_neg]
    rintro ⟨hp, -⟩
    rw [hpc'] at hp
    rcases hp with hp | hp <;> rcases hpc with hq | hq <;> rw [hp] at hq <;>
      simp_all

/-- A message that is handed over the moment it is posted. -/
theorem ledger_woken (h : Ok k) (hL : Ledger c e k os) {e' : Ev} {p : Prio} {t : OS_TCB}
    (ht : k.OSTCBPrioTbl p = some t)
    (hpc : t.OSTCBStkPtr = .pendSched e' ∨ t.OSTCBStkPtr = .pendWake e')
    (hin : InPend k e' p t) (hw : p ∈ k.waiting e') (pmsg : Msg) :
    Ledger c e (k.woken e' p (served t pmsg))
      (os ++ [.accepted e' k.caller pmsg, .handed e' p pmsg]) := by
  have hobj : ((k.woken e' p (served t pmsg)).OSEventTbl e).object =
      (k.OSEventTbl e).object := object_remove ..
  have hflight : ∀ q, (k.woken e' p (served t pmsg)).flight e q =
      if q = p then inFlight e (served t pmsg) else k.flight e q := fun q =>
    flight_update rfl q
  by_cases he : e' = e
  · subst he
    have hempty : (k.OSEventTbl e').object.contents = [] := by
      by_contra hne
      exact h.store e' hne p hw
    refine ⟨?_, fun q => ?_⟩
    · have hstored := hL.stored
      rw [hempty, List.append_nil] at hstored
      rw [hobj, hempty, List.append_nil, Seen.acceptedBy_append, Seen.handedBy_append,
        List.map_append, ← List.append_assoc, hstored]
      simp [Seen.acceptedBy, Seen.handedBy]
    · have hsent := hL.sent q
      rw [Seen.handedTo_append, Seen.returnedTo_append, hflight, hsent]
      by_cases hq : q = p
      · have hold : k.flight e' q = [] := by
          rw [hq, flight_of_some ht, hin.inFlight_nil hw]
        rw [if_pos hq, hold, served_inFlight hpc, if_pos rfl, hq]
        simp [Seen.handedTo, Seen.handedBy, Seen.returnedTo]
      · rw [if_neg hq]
        simp [Seen.handedTo, Seen.handedBy, Seen.returnedTo, Ne.symm hq]
  · refine ⟨?_, fun q => ?_⟩
    · rw [hobj, Seen.acceptedBy_append, Seen.handedBy_append]
      simpa [Seen.acceptedBy, Seen.handedBy, he] using hL.stored
    · rw [Seen.handedTo_append, Seen.returnedTo_append, hflight, hL.sent q]
      have hold : (if q = p then inFlight e (served t pmsg) else k.flight e q) =
          k.flight e q := by
        split
        · next hq =>
            rw [served_inFlight hpc, if_neg he, hq, flight_of_some ht]
            refine (inFlight_of_pc ?_ ?_).symm <;> intro hp <;> rcases hpc with hq | hq <;>
              rw [hp] at hq <;> simp_all
        · rfl
      rw [hold]
      simp [Seen.handedTo, Seen.handedBy, Seen.returnedTo, he]

/-- A post. -/
theorem ledger_post (h : Ok k) (hL : Ledger c e k os) (e' : Ev) {pmsg : Msg}
    (hm : (k.OSEventTbl e').object.isQueue = true ∨ pmsg = 0) :
    Ledger c e (k.post e' pmsg).kernel (os ++ k.seenPost e' pmsg (k.post e' pmsg)) := by
  rcases post_cases h.task e' pmsg with ⟨p, t, ht, hleast, hpc, hin, hpost⟩ |
    ⟨-, ⟨object, hput, hpost⟩ | ⟨-, hpost⟩⟩
  · rw [hpost]
    exact ledger_woken h hL ht hpc hin hleast.1 pmsg
  · rw [hpost]
    refine ⟨?_, fun p => ?_⟩
    · rw [object_setEvent]
      show c ++ Seen.acceptedBy e (os ++ [.accepted e' k.caller pmsg]) =
        (Seen.handedBy e (os ++ [.accepted e' k.caller pmsg])).map Prod.snd ++ _
      rw [Seen.acceptedBy_append, Seen.handedBy_append, ← List.append_assoc, hL.stored]
      by_cases he : e = e'
      · subst he
        rw [if_pos rfl, Object.contents_of_put hput hm]
        simp [Seen.acceptedBy, Seen.handedBy]
      · rw [if_neg he]
        simp [Seen.acceptedBy, Seen.handedBy, Ne.symm he]
    · show Seen.handedTo e p (os ++ [.accepted e' k.caller pmsg]) =
        Seen.returnedTo e p (os ++ [.accepted e' k.caller pmsg]) ++ k.flight e p
      rw [Seen.handedTo_append, Seen.returnedTo_append, hL.sent p]
      simp [Seen.handedTo, Seen.handedBy, Seen.returnedTo]
  · rw [hpost, seenPost, if_neg, List.append_nil]
    · exact hL
    · cases (k.OSEventTbl e').object <;> simp [Object.full]

/-- A message that a pend takes out of the object at once. -/
theorem ledger_take (hL : Ledger c e k os) {t : OS_TCB}
    (ht : k.OSTCBPrioTbl k.OSPrioCur = some t) (hat : t.OSTCBStkPtr = .code) {e' : Ev} {m : Msg}
    {object : Object} (htake : (k.OSEventTbl e').object.take = some (m, object)) :
    Ledger c e (k.setEvent e' { k.OSEventTbl e' with object })
      (os ++ [.handed e' k.OSPrioCur m, .returned e' k.OSPrioCur m]) := by
  refine ⟨?_, fun p => ?_⟩
  · have hstored := hL.stored
    rw [object_setEvent, Seen.acceptedBy_append, Seen.handedBy_append, List.map_append]
    by_cases he : e = e'
    · subst he
      rw [Object.contents_of_take htake] at hstored
      rw [if_pos rfl, ← List.append_assoc, hstored]
      simp [Seen.acceptedBy, Seen.handedBy]
    · rw [if_neg he, ← List.append_assoc, hstored]
      simp [Seen.acceptedBy, Seen.handedBy, Ne.symm he]
  · show Seen.handedTo e p (os ++ _) = Seen.returnedTo e p (os ++ _) ++ k.flight e p
    rw [Seen.handedTo_append, Seen.returnedTo_append, hL.sent p]
    by_cases hp : k.OSPrioCur = p
    · have hnone : k.flight e p = [] := by
        rw [← hp, flight_of_some ht]
        exact inFlight_of_pc (by simp [hat]) (by simp [hat])
      rw [hnone]
      by_cases he : e' = e <;> simp [Seen.handedTo, Seen.handedBy, Seen.returnedTo, he, hp]
    · simp [Seen.handedTo, Seen.handedBy, Seen.returnedTo, hp]

/-- The first part of a pend. -/
theorem ledger_pend (hL : Ledger c e k os) (hrun : k.runsAt .code = true) (e' : Ev)
    (timeout : UInt32) :
    Ledger c e (pended e' (k.pend e' timeout)) (os ++ k.seenPend e' (k.pend e' timeout)) := by
  obtain ⟨hnest, -, t, ht, hat⟩ := runsAt_iff.mp hrun
  rcases pend_cases hnest ht e' timeout with ⟨-, hpend⟩ |
    ⟨-, ⟨m, object, htake, hpend⟩ | ⟨-, hpend⟩⟩
  · rw [hpend]
    exact (List.append_nil os).symm ▸ hL
  · rw [hpend]
    exact ledger_take hL ht hat htake
  · rw [hpend]
    -- the task has its status bit set, so nothing is on the way to it
    have htbl : ((k.blocked e' t timeout).goOn (.pendSched e')).OSTCBPrioTbl =
        Function.update k.OSTCBPrioTbl k.OSPrioCur (some
          { t with
            OSTCBStat := t.OSTCBStat ||| k.kind e'
            OSTCBStatPend := .OS_STAT_PEND_OK
            OSTCBDly := timeout
            OSTCBStkPtr := .pendSched e' }) := by
      have hnew := tcb_goOn (k := k.blocked e' t timeout) (Function.update_self ..) (.pendSched e')
      exact hnew.trans (Function.update_idem ..)
    refine (List.append_nil os).symm ▸ hL.stay (object_blocked e' e)
      (flight_same ht htbl ?_)
    rw [inFlight_of_pc (t := t) (by simp [hat]) (by simp [hat])]
    refine if_neg fun hin => kind_ne_rdy k e' ?_
    exact (BitVec.or_eq_zero_iff.mp hin.2.1).2

/-- The end of a pend. -/
theorem ledger_pendEnd (h : Ok k) (hL : Ledger c e k os) {e' : Ev}
    (hrun : k.runsAt (.pendWake e') = true) {r : Msg × OsErr × Kernel}
    (hr : k.pendEnd e' = some r) :
    Ledger c e (r.2.2.goOn .code) (os ++ k.seen (.pendEnd e')) := by
  obtain ⟨t, ht, hat, -, hstat, -, -, hend⟩ := pendEnd_cases h hrun
  have hout : inFlight e { ended t with OSTCBStkPtr := .code } = [] :=
    inFlight_of_pc (by simp) (by simp)
  rw [seen]
  rcases hend with ⟨hpend, -, hend⟩ | ⟨hpend, -, hend⟩ <;> rw [hend] <;>
    obtain rfl := Option.some.inj (hr.symm.trans hend)
  · -- the message leaves the control block
    have hin : inFlight e t = if e' = e then [t.OSTCBMsg] else [] := by
      rw [inFlight, hat]
      by_cases he : e' = e <;> simp [he, hstat, hpend]
    refine ⟨?_, fun p => ?_⟩
    · show c ++ Seen.acceptedBy e (os ++ _) = (Seen.handedBy e (os ++ _)).map _ ++
        (k.OSEventTbl e).object.contents
      rw [Seen.acceptedBy_append, Seen.handedBy_append]
      simpa [Seen.acceptedBy, Seen.handedBy] using hL.stored
    · rw [flight_update (tcb_setTcb_goOn k (ended t) .code), hout, Seen.handedTo_append,
        Seen.returnedTo_append, hL.sent p]
      by_cases hp : p = k.OSPrioCur
      · rw [if_pos hp, hp, flight_of_some ht, hin]
        by_cases he : e' = e <;> simp [Seen.handedTo, Seen.handedBy, Seen.returnedTo, he]
      · rw [if_neg hp]
        simp [Seen.handedTo, Seen.handedBy, Seen.returnedTo, Ne.symm hp]
  · refine (List.append_nil os).symm ▸ hL.stay (object_remove ..)
      (flight_same ht (tcb_setTcb_goOn (k.OS_EventTaskRemove k.OSPrioCur e') (ended t) .code) ?_)
    rw [hout, inFlight, if_neg]
    rintro ⟨-, -, hpend'⟩
    rw [hpend] at hpend'
    cases hpend'

/-! ## Steps -/

/-- What the tick and the creation of a task do moves no message. -/
theorem flight_tick (h : Ok k) (p q : Prio) : (k.tickTcb p).flight e q = k.flight e q := by
  rcases tickTcb_eq k p with heq | ⟨t, t', s, ht, hdly, hpc, hopen, heq⟩
  · rw [heq]
  · have htbl : (k.tickTcb p).OSTCBPrioTbl = Function.update k.OSTCBPrioTbl p (some t') := by
      rw [heq]
      rfl
    refine flight_same ht htbl ?_ q
    rcases ((h.task p).of_some ht).2.of_delayed hdly with ⟨e', -, -, hkind, -, hw⟩ | ⟨hat, -, -⟩
    · -- it waits, before and after
      have hwaits : t.OSTCBStat ≠ OS_STAT_RDY := fun hr => kind_ne_rdy k e' (hkind.symm.trans hr)
      rw [inFlight, if_neg, inFlight, if_neg]
      · exact fun hin => hwaits hin.2.1
      · rintro ⟨-, hstat, hpend⟩
        rcases hopen with hs | hs
        · exact hwaits (hs.symm.trans hstat)
        · rw [hs] at hpend
          cases hpend
    · have hout : ∀ t'' : OS_TCB, t''.OSTCBStkPtr = .code ∨ t''.OSTCBStkPtr = .sched →
          inFlight e t'' = [] := fun t'' hat' =>
        inFlight_of_pc (by rcases hat' with h | h <;> simp [h])
          (by rcases hat' with h | h <;> simp [h])
      rw [hout t' (hpc ▸ hat), hout t hat]

theorem flight_create (k : Kernel) (prio p : Prio) :
    (k.OSTaskCreate prio).2.flight e p = k.flight e p := by
  rcases create_eq k prio with heq | ⟨hnone, t, l, s, hat, heq⟩
  · rw [heq]
  · have htbl : (k.OSTaskCreate prio).2.OSTCBPrioTbl =
        Function.update k.OSTCBPrioTbl prio (some t) := by
      rw [heq]
      rfl
    rw [flight_update htbl, inFlight_of_pc (by simp [hat]) (by simp [hat])]
    split
    · next hp => rw [flight, hp, hnone, Option.elim_none]
    · rfl

/-- A call that moves no message, by the running task. -/
theorem ledger_goOnAt {t : OS_TCB} (hL : Ledger c e k os)
    (ht : k.OSTCBPrioTbl k.OSPrioCur = some t) (hat : t.OSTCBStkPtr = .code) (sched : Bool) :
    Ledger c e (k.goOnAt sched) os :=
  hL.stay rfl (flight_goOnAt ht hat sched)

theorem ledger_OS_Sched (hL : Ledger c e k os) : Ledger c e k.OS_Sched os := by
  obtain ⟨hp, sv, heq⟩ := OS_Sched_eq k
  rw [heq]
  exact hL.stay rfl (flight_of_tcb rfl)

/-- The running task goes on with as much on the way to it. -/
theorem ledger_goOn {t : OS_TCB} (hL : Ledger c e k os) (ht : k.OSTCBPrioTbl k.OSPrioCur = some t)
    {pc : Pc} (hsame : inFlight e { t with OSTCBStkPtr := pc } = inFlight e t) :
    Ledger c e (k.OS_Sched.goOn pc) os := by
  obtain ⟨hp, sv, heq⟩ := OS_Sched_eq k
  have hL' := ledger_OS_Sched hL
  rw [heq] at hL' ⊢
  exact hL'.stay rfl (flight_same ht (tcb_goOn ht pc) hsame)

/-- A task that takes itself off the ready list. -/
theorem ledger_block {t t' : OS_TCB} (hL : Ledger c e k os)
    (ht : k.OSTCBPrioTbl k.OSPrioCur = some t) (hat : t.OSTCBStkPtr = .code) (s : PrioSet 8) :
    Ledger c e (({ k with OSRdyTbl := s }.setTcb k.OSPrioCur t').goOn .sched) os := by
  refine hL.stay rfl (flight_same ht (tcb_setTcb_goOn { k with OSRdyTbl := s } t' .sched) ?_)
  rw [inFlight_of_pc (t := t) (by simp [hat]) (by simp [hat])]
  exact inFlight_of_pc (by simp) (by simp)

/-- A call by the running task. -/
theorem ledger_call (hcall : Call k k') (hr : Ledger c e k' os) (hmay : k.mayCall = true)
    (sched : Bool) : Ledger c e (k'.goOnAt sched) os := by
  obtain ⟨-, -, t, ht, hat⟩ := runsAt_iff.mp (mayCall_iff.mp hmay).1
  have hpc := hcall.pc
  rw [ht, Option.map_some, hat] at hpc
  obtain ⟨t', ht', hat'⟩ := Option.map_eq_some_iff.mp hpc
  rw [← hcall.ctl.cur] at ht'
  exact ledger_goOnAt hr ht' hat' sched

/-- A post, by a task or by an interrupt service routine. -/
theorem ledger_posted {r : Posted} (hcall : Call k r.kernel) (hr : Ledger c e r.kernel os)
    (hk : k.posted r = some k') : Ledger c e k' os := by
  rw [posted] at hk
  split at hk
  · obtain rfl := Option.some.inj hk
    split
    · exact ledger_OS_Sched hr
    · exact hr
  · split at hk
    · next hmay =>
        obtain rfl := Option.some.inj hk
        exact ledger_call hcall hr hmay _
    · cases hk

/-- **Every step keeps the books.** -/
theorem ledger_step {ev : Event} (h : Ok k) (hL : Ledger c e k os) (hk : k.step ev = some k') :
    Ledger c e k' (os ++ k.seen ev) := by
  have hL' : Ledger c e k (os ++ []) := (List.append_nil os).symm ▸ hL
  have hcode : k.mayCall = true →
      ∃ t, k.OSTCBPrioTbl k.OSPrioCur = some t ∧ t.OSTCBStkPtr = .code := fun hmay =>
    (runsAt_iff.mp (mayCall_iff.mp hmay).1).2.2
  cases ev with
  | OSQPost e' pmsg =>
      have hk' : k.posted (k.OSQPost e' pmsg) = some k' := hk
      rw [seen]
      rw [OSQPost] at hk' ⊢
      split at hk'
      · next hq =>
          rw [if_pos hq]
          exact ledger_posted (call_post h e' pmsg) (ledger_post h hL e' (.inl hq)) hk'
      · next hq =>
          rw [if_neg hq]
          exact ledger_posted (r := ⟨k, .OS_ERR_EVENT_TYPE, none⟩) (.refl h) hL' hk'
  | OSSemPost e' =>
      have hk' : k.posted (k.OSSemPost e') = some k' := hk
      rw [seen]
      rw [OSSemPost] at hk' ⊢
      split at hk'
      · next hq =>
          rw [if_pos hq]
          exact ledger_posted (r := ⟨k, .OS_ERR_EVENT_TYPE, none⟩) (.refl h) hL' hk'
      · next hq =>
          rw [if_neg hq]
          exact ledger_posted (call_post h e' 0) (ledger_post h hL e' (.inr rfl)) hk'
  | OSQPend e' timeout =>
      obtain ⟨hmay, hk⟩ := Option.ite_none_right_eq_some.mp hk
      obtain rfl := Option.some.inj hk
      rw [seen, OSQPend]
      split
      · exact ledger_pend hL (mayCall_iff.mp hmay).1 e' timeout
      · exact hL'
  | OSSemPend e' timeout =>
      obtain ⟨hmay, hk⟩ := Option.ite_none_right_eq_some.mp hk
      obtain rfl := Option.some.inj hk
      rw [seen, OSSemPend]
      split
      · exact hL'
      · exact ledger_pend hL (mayCall_iff.mp hmay).1 e' timeout
  | pendEnd e' =>
      obtain ⟨hrun, hk⟩ := Option.ite_none_right_eq_some.mp hk
      obtain ⟨r, hr, rfl⟩ := Option.map_eq_some_iff.mp hk
      exact ledger_pendEnd h hL hrun hr
  | OS_Sched inPend =>
      cases inPend with
      | none =>
          obtain ⟨hrun, hk⟩ := Option.ite_none_right_eq_some.mp hk
          obtain rfl := Option.some.inj hk
          obtain ⟨-, -, t, ht, hat⟩ := runsAt_iff.mp hrun
          refine ledger_goOn hL' ht ?_
          rw [inFlight_of_pc (t := t) (by simp [hat]) (by simp [hat])]
          exact inFlight_of_pc (by simp) (by simp)
      | some e' =>
          obtain ⟨hrun, hk⟩ := Option.ite_none_right_eq_some.mp hk
          obtain rfl := Option.some.inj hk
          obtain ⟨-, -, t, ht, hat⟩ := runsAt_iff.mp hrun
          refine ledger_goOn hL' ht ?_
          rw [inFlight, inFlight, hat]
          simp
  | OSIntEnter =>
      obtain ⟨-, hk⟩ := Option.ite_none_right_eq_some.mp hk
      obtain rfl := Option.some.inj hk
      obtain ⟨n, heq⟩ := OSIntEnter_eq k
      rw [heq]
      exact hL'.stay rfl (flight_of_tcb rfl)
  | OSIntExit =>
      obtain ⟨hnest, hk⟩ := Option.ite_none_right_eq_some.mp hk
      obtain rfl := Option.some.inj hk
      rw [OSIntExit_eq hnest]
      exact ledger_OS_Sched (hL'.stay rfl (flight_of_tcb rfl))
  | OS_CPU_PendSVHandler =>
      obtain ⟨-, hk⟩ := Option.ite_none_right_eq_some.mp hk
      obtain rfl := Option.some.inj hk
      exact hL'.stay rfl (flight_of_tcb rfl)
  | OSTime =>
      obtain ⟨-, hk⟩ := Option.ite_none_right_eq_some.mp hk
      obtain rfl := Option.some.inj hk
      exact hL'.stay rfl (flight_of_tcb rfl)
  | tickTcb p =>
      obtain ⟨-, hk⟩ := Option.ite_none_right_eq_some.mp hk
      obtain rfl := Option.some.inj hk
      refine hL'.stay ?_ (flight_tick h p)
      rcases tickTcb_eq k p with heq | ⟨_, _, _, _, _, _, _, heq⟩ <;> rw [heq]
      rfl
  | OSTimeDly ticks =>
      obtain ⟨hmay, hk⟩ := Option.ite_none_right_eq_some.mp hk
      obtain rfl := Option.some.inj hk
      obtain ⟨t, ht, hat⟩ := hcode hmay
      rcases OSTimeDly_eq ht ticks with heq | heq
      · rw [heq]
        exact ledger_goOnAt hL' ht hat false
      · rw [heq]
        exact ledger_block hL' ht hat _
  | OSTaskSuspend =>
      obtain ⟨hmay, hk⟩ := Option.ite_none_right_eq_some.mp hk
      obtain rfl := Option.some.inj hk
      obtain ⟨t, ht, hat⟩ := hcode hmay
      rw [OSTaskSuspend, OSTCBCur, ht]
      exact ledger_block hL' ht hat _
  | OSTaskCreate prio =>
      obtain ⟨hmay, hk⟩ := Option.ite_none_right_eq_some.mp hk
      obtain rfl := Option.some.inj hk
      refine ledger_call (call_create h prio) (hL'.stay ?_ (flight_create k prio)) hmay _
      rcases create_eq k prio with heq | ⟨_, _, _, _, _, heq⟩ <;> rw [heq]
      rfl
  | OSSchedLock =>
      obtain ⟨-, hk⟩ := Option.ite_none_right_eq_some.mp hk
      obtain rfl := Option.some.inj hk
      obtain ⟨n, heq⟩ := OSSchedLock_eq k
      rw [heq]
      exact hL'.stay rfl (flight_of_tcb rfl)
  | OSSchedUnlock =>
      obtain ⟨hmay, hk⟩ := Option.ite_none_right_eq_some.mp hk
      obtain rfl := Option.some.inj hk
      obtain ⟨t, ht, hat⟩ := hcode hmay
      obtain ⟨n, sched, heq⟩ := OSSchedUnlock_eq k
      rw [heq]
      have hL₁ : Ledger c e { k with OSLockNesting := n } (os ++ []) :=
        hL'.stay rfl (flight_of_tcb rfl)
      exact ledger_goOnAt hL₁ ht hat _

end Steps

/-! ## Runs -/

theorem object_boot (objects : Ev → Object) (prios : List Prio) (e : Ev) :
    ((boot objects prios).OSEventTbl e).object = objects e := by
  have hcreate : ∀ (k : Kernel) p, (k.OSTaskCreate p).2.OSEventTbl = k.OSEventTbl := by
    intro k p
    rcases create_eq k p with heq | ⟨_, _, _, _, _, heq⟩ <;> rw [heq]
    rfl
  have hfold : ∀ k : Kernel, (prios.foldl (fun k p => (k.OSTaskCreate p).2) k).OSEventTbl =
      k.OSEventTbl := by
    induction prios with
    | nil => exact fun _ => rfl
    | cons p ps ih => exact fun k => (ih _).trans (hcreate k p)
  show ((prios.foldl (fun k p => (k.OSTaskCreate p).2) (OSInit objects)).OSEventTbl e).object = _
  rw [hfold, OSInit, hcreate, hcreate, OS_InitMisc]

/-- Nothing is on the way when multitasking starts. -/
theorem flight_boot (objects : Ev → Object) (prios : List Prio) (e : Ev) (p : Prio) :
    (boot objects prios).flight e p = [] := by
  have hfold : ∀ k : Kernel,
      (prios.foldl (fun k p => (k.OSTaskCreate p).2) k).flight e p = k.flight e p := by
    induction prios with
    | nil => exact fun _ => rfl
    | cons q qs ih => exact fun k => (ih _).trans (flight_create k q p)
  show (prios.foldl (fun k p => (k.OSTaskCreate p).2) (OSInit objects)).flight e p = []
  rw [hfold, OSInit, flight_create, flight_create]
  rfl

theorem ledger_boot (objects : Ev → Object) (prios : List Prio) (e : Ev) :
    Ledger (objects e).contents e (boot objects prios) [] :=
  ⟨by rw [object_boot]; exact List.append_nil _, fun p => by rw [flight_boot]; rfl⟩

/-- What is seen of the messages along a run. -/
def story (k : Kernel) (evs : List Event) : List Seen := trace step seen k evs

theorem ledger_of_run {objects : Ev → Object} {prios : List Prio} {evs : List Event} {k : Kernel}
    (hrun : run step (boot objects prios) evs = some k) (e : Ev) :
    Ledger (objects e).contents e k ((boot objects prios).story evs) :=
  (run_ledger (I := Ok) (fun _ _ _ _ h hL hk => ⟨ok_step h hk, ledger_step h hL hk⟩)
    (ok_boot objects prios) (ledger_boot objects prios e) hrun).2

/-- **Every message is delivered once, in order.**  In every run, for every event: the messages
that were there at the start and those whose post was accepted since are, in this order, those
handed to some task and those the object still holds; and the messages handed to a task are, in
this order, those its pends on the event returned, and at most one that lies in its control
block while it is inside such a pend. -/
theorem run_delivered_once {objects : Ev → Object} {prios : List Prio} {evs : List Event}
    {k : Kernel} (hrun : run step (boot objects prios) evs = some k) (e : Ev) :
    (objects e).contents ++ Seen.acceptedBy e ((boot objects prios).story evs) =
      (Seen.handedBy e ((boot objects prios).story evs)).map Prod.snd ++
        (k.OSEventTbl e).object.contents ∧
    ∀ p, ∃ l : List Msg,
      Seen.handedTo e p ((boot objects prios).story evs) =
        Seen.returnedTo e p ((boot objects prios).story evs) ++ l ∧
      l.length ≤ 1 ∧
      (l ≠ [] → ∃ t, k.OSTCBPrioTbl p = some t ∧
        (t.OSTCBStkPtr = .pendSched e ∨ t.OSTCBStkPtr = .pendWake e) ∧ l = [t.OSTCBMsg]) := by
  have hL := ledger_of_run hrun e
  refine ⟨hL.stored, fun p => ⟨k.flight e p, hL.sent p, ?_⟩⟩
  rw [flight]
  cases ht : k.OSTCBPrioTbl p with
  | none => exact ⟨Nat.zero_le _, fun hne => absurd rfl hne⟩
  | some t =>
      rw [Option.elim_some, inFlight]
      split
      · next hin => exact ⟨le_rfl, fun _ => ⟨t, rfl, hin.1, rfl⟩⟩
      · exact ⟨Nat.zero_le _, fun hne => absurd rfl hne⟩

/-- The message of task 6 is on its way to task 5. -/
theorem run_delivered_once_handOver :
    (oneQueue 0).contents ++ Seen.acceptedBy 0 ((boot oneQueue [5, 6]).story handOver) =
      (Seen.handedBy 0 ((boot oneQueue [5, 6]).story handOver)).map Prod.snd ++
        ((behind oneQueue [5, 6] handOver).OSEventTbl 0).object.contents ∧
    ∀ p, ∃ l : List Msg,
      Seen.handedTo 0 p ((boot oneQueue [5, 6]).story handOver) =
        Seen.returnedTo 0 p ((boot oneQueue [5, 6]).story handOver) ++ l ∧
      l.length ≤ 1 ∧
      (l ≠ [] → ∃ t, (behind oneQueue [5, 6] handOver).OSTCBPrioTbl p = some t ∧
        (t.OSTCBStkPtr = .pendSched 0 ∨ t.OSTCBStkPtr = .pendWake 0) ∧ l = [t.OSTCBMsg]) :=
  run_delivered_once (run_behind (by decide +kernel)) 0

example : Seen.handedTo 0 5 ((boot oneQueue [5, 6]).story handOver) = [77] := by decide +kernel

end Kernel

end NetCamera.Rtos
