import NetCamera.Rtos.ThreadEvents
import NetCamera.SysArch

/-!
# NetCamera.Rtos.ThreadRun

A thread goes on by steps of its task (`serve_step`), and what its calls return it would get from
`ucos` (`View.serve`).  So every program of the task runs as one of `ucos` (`run_as_ucos`), and
what holds of the waits there holds among all tasks and interrupts (`run_fetch_timeout`).
-/

namespace NetCamera.Rtos

open Run Calls

section View

variable {o : Owner} {s : Watched} {a : NetCamera.Kernel} {k' : Kernel}

/-! ## The task's own steps -/

namespace Kernel

variable {k : Kernel} {e : Ev} {w : WaitList} {t : OS_TCB}

/-- The thread begins to wait. -/
theorem Shown.blocked (h : Shown o k a) (hw : Waits o e w) (hcur : k.OSPrioCur = o.prio)
    (hstat : t.OSTCBStat = OS_STAT_RDY ∨ t.OSTCBStat = OS_STAT_SUSPEND) (timeout : UInt32) :
    Shown o ((k.blocked e t timeout).goOn (.pendSched e)) (a.OS_EventTaskWait w timeout) := by
  have hmem : o.prio ∈ ((k.blocked e t timeout).goOn (.pendSched e)).waiting e :=
    (mem_waiting_blocked e e).mpr (.inl ⟨rfl, hcur.symm⟩)
  have hne : t.OSTCBStat ||| k.kind e ≠ OS_STAT_RDY := by
    rcases hstat with hs | hs <;> rcases kind_cases k e with hk | hk <;> rw [hs, hk] <;> decide
  have hset : (k.blocked e t timeout).OSTCBPrioTbl (k.blocked e t timeout).OSPrioCur =
      some { t with
        OSTCBStat := t.OSTCBStat ||| k.kind e
        OSTCBStatPend := .OS_STAT_PEND_OK
        OSTCBDly := timeout } := Function.update_self ..
  have htcb := tcb_goOn_self hset (.pendSched e)
  rw [show (k.blocked e t timeout).OSPrioCur = o.prio from hcur] at htcb
  refine ⟨?_, ?_, fun e' w' hw' q hq => ?_, _, htcb, .inside e w hw (.inl rfl)
    ⟨rfl, (if_pos hmem).symm, iff_of_true rfl hne, ?_, rfl, fun hno => absurd hmem hno⟩⟩
  · show ∃ pq, ((k.blocked e t timeout).OSEventTbl o.mbox).object = _ ∧ _
    rw [object_blocked]
    exact h.queue
  · show ((k.blocked e t timeout).OSEventTbl o.sem).object = _
    rw [object_blocked]
    exact h.sem
  · rcases (mem_waiting_blocked e e').mp hq with ⟨-, rfl⟩ | hold
    · exact hcur
    · exact h.alone e' w' hw' q hold
  · exact iff_of_false (fun heq => by cases heq) fun heq => by cases heq

/-- The thread goes on behind `OS_Sched`. -/
theorem Shown.wake (h : Shown o k a) (hcur : k.OSPrioCur = o.prio)
    (hrun : k.runsAt (.pendSched e) = true) : Shown o (k.OS_Sched.goOn (.pendWake e)) a := by
  obtain ⟨-, -, t, ht, hat⟩ := runsAt_iff.mp hrun
  obtain ⟨t', ht', hview⟩ := h.task
  obtain rfl := Option.some.inj (ht.symm.trans (hcur ▸ ht'))
  obtain ⟨hp, sv, heq⟩ := OS_Sched_eq k
  have htcb : (k.OS_Sched.goOn (.pendWake e)).OSTCBPrioTbl o.prio =
      some { t with OSTCBStkPtr := .pendWake e } := by
    rw [heq, ← hcur]
    exact tcb_goOn_self ht _
  rw [heq] at htcb ⊢
  refine ⟨h.queue, h.sem, h.alone, _, htcb, ?_⟩
  cases hview with
  | outside hpc => rcases hpc with hpc | hpc <;> rw [hat] at hpc <;> cases hpc
  | inside e' w hw hpc hin =>
      obtain rfl : e = e' := by rcases hpc with hpc | hpc <;> rw [hat] at hpc <;> cases hpc; rfl
      exact .inside e w hw (.inr rfl) ⟨hin.inPend, hin.waitsOn, hin.pending, hin.timedOut, hin.dly,
        hin.msg⟩

/-- The thread leaves its pend. -/
theorem Shown.leave (hok : Ok k) (h : Shown o k a) (hcur : k.OSPrioCur = o.prio)
    (hrun : k.runsAt (.pendWake e) = true) {r : Msg × OsErr × Kernel} (hr : k.pendEnd e = some r)
    (pmsg : Msg) : Shown o (r.2.2.goOn .code) { a.leave with OSTCBMsg := pmsg } := by
  obtain ⟨t, ht, -, -, -, -, -, ⟨-, -, hend⟩ | ⟨-, hwait, hend⟩⟩ := pendEnd_cases hok hrun
  · obtain rfl := Option.some.inj (hr.symm.trans hend)
    have htcb : ((k.setTcb k.OSPrioCur (ended t)).goOn .code).OSTCBPrioTbl o.prio =
        some { ended t with OSTCBStkPtr := .code } := by
      rw [← hcur]
      exact tcb_goOn_self (Function.update_self ..) _
    exact ⟨h.queue, h.sem, h.alone, _, htcb, .outside (.inl rfl) rfl rfl⟩
  · obtain rfl := Option.some.inj (hr.symm.trans hend)
    have htcb : (((k.OS_EventTaskRemove k.OSPrioCur e).setTcb k.OSPrioCur (ended t)).goOn
        .code).OSTCBPrioTbl o.prio = some { ended t with OSTCBStkPtr := .code } := by
      rw [← hcur]
      exact tcb_goOn_self (Function.update_self ..) _
    have hobj := object_remove k k.OSPrioCur e
    refine ⟨?_, (hobj o.sem).trans h.sem, fun e' w hw q hq => ?_, _, htcb,
      .outside (.inl rfl) rfl rfl⟩
    · show ∃ pq, ((k.OS_EventTaskRemove k.OSPrioCur e).OSEventTbl o.mbox).object = _ ∧ _
      rw [hobj]
      exact h.queue
    · have hq' : q ∈ (k.OS_EventTaskRemove k.OSPrioCur e).waiting e' := hq
      rw [mem_waiting_remove] at hq'
      exact h.alone e' w hw q hq'.2

/-- A pend goes on by steps of the kernel. -/
theorem servePend_step {r : Pended} {ev : Event} {ans : Option (Msg × OsErr)}
    (hstep : k.mayCall = true → k.step ev = some (pended e r)) (hev : ¬ Moves ev)
    (hk : k.servePend e r = some (ans, k')) : ∃ ev, ¬ Moves ev ∧ k.step ev = some k' := by
  unfold servePend at hk
  split at hk
  · next hmay =>
      refine ⟨ev, hev, (hstep hmay).trans ?_⟩
      cases r <;> cases hk <;> rfl
  · split at hk
    · next hrun =>
        cases hk
        exact ⟨.OS_Sched (some e), id, if_pos hrun⟩
    · split at hk
      · next hrun =>
          obtain ⟨r, hend, heq⟩ := Option.map_eq_some_iff.mp hk
          obtain ⟨-, rfl⟩ := Prod.mk.inj heq
          refine ⟨.pendEnd e, id, (if_pos hrun).trans ?_⟩
          rw [hend]
          rfl
      · cases hk

/-- **The thread goes on by steps of its task.** -/
theorem serve_step {q : OsCall} {ans : Option q.Answer} (hk : k.serve o q = some (ans, k')) :
    k' = k ∨ ∃ ev, ¬ Moves ev ∧ k.step ev = some k' := by
  cases q with
  | OSTimeGet =>
      obtain ⟨-, heq⟩ := Option.ite_none_right_eq_some.mp hk
      exact .inl (Prod.mk.inj (Option.some.inj heq)).2.symm
  | OSQPend timeout =>
      obtain ⟨r, hr, heq⟩ := Option.map_eq_some_iff.mp hk
      obtain ⟨-, rfl⟩ := Prod.mk.inj heq
      have hstep : k.mayCall = true →
          k.step (.OSQPend o.mbox timeout) = some (pended o.mbox (k.OSQPend o.mbox timeout)) :=
        fun hmay => if_pos hmay
      exact .inr (servePend_step hstep id hr)
  | OSSemPend timeout =>
      obtain ⟨r, hr, heq⟩ := Option.map_eq_some_iff.mp hk
      obtain ⟨-, rfl⟩ := Prod.mk.inj heq
      have hstep : k.mayCall = true →
          k.step (.OSSemPend o.sem timeout) = some (pended o.sem (k.OSSemPend o.sem timeout)) :=
        fun hmay => if_pos hmay
      exact .inr (servePend_step hstep id hr)

/-- **A pend of the thread** takes what is there, begins to wait, goes on inside, or ends as the
thread knows. -/
theorem servePend_cases {timeout : UInt32} {ans : Option (Msg × OsErr)} (hok : Ok k)
    (h : Shown o k a) (hw : Waits o e w) (hcur : k.OSPrioCur = o.prio) (hlock : k.OSLockNesting = 0)
    (hk : k.servePend e (k.pend e timeout) = some (ans, k')) :
    (a.inPend = false ∧ ∃ m object, (k.OSEventTbl e).object.take = some (m, object) ∧
      ans = some (m, .OS_ERR_NONE) ∧ k' = k.setEvent e { k.OSEventTbl e with object }) ∨
    (a.inPend = false ∧ (k.OSEventTbl e).object.take = none ∧ ans = none ∧
      Shown o k' (a.OS_EventTaskWait w timeout)) ∨
    (ans = none ∧ Shown o k' a) ∨
    (a.inPend = true ∧ a.pending = false ∧
      (∀ pmsg, Shown o k' { a.leave with OSTCBMsg := pmsg }) ∧
      (a.OSTCBStatPend = .OS_STAT_PEND_OK ∧ ans = some (a.OSTCBMsg, .OS_ERR_NONE) ∨
        a.OSTCBStatPend = .OS_STAT_PEND_TO ∧ ans = some (0, .OS_ERR_TIMEOUT))) := by
  obtain ⟨t₀, ht₀, hview⟩ := h.task
  unfold servePend at hk
  split at hk
  · next hmay =>
      obtain ⟨hrun, -⟩ := mayCall_iff.mp hmay
      obtain ⟨t, ht, hat, -, hstat, -⟩ := hok.at_code hrun
      obtain rfl := Option.some.inj (ht₀.symm.trans (hcur ▸ ht))
      have hout : a.inPend = false := by
        cases hview with
        | outside _ hin => exact hin
        | inside _ _ _ hpc => rcases hpc with hpc | hpc <;> rw [hat] at hpc <;> cases hpc
      rcases pend_cases (runsAt_iff.mp hrun).1 ht e timeout with ⟨hne, -⟩ |
        ⟨-, ⟨m, object, htake, hpend⟩ | ⟨htake, hpend⟩⟩
      · exact absurd hlock hne
      · rw [hpend] at hk
        cases hk
        exact .inl ⟨hout, m, object, htake, rfl, rfl⟩
      · rw [hpend] at hk
        cases hk
        exact .inr (.inl ⟨hout, htake, rfl, h.blocked hw hcur hstat timeout⟩)
  · split at hk
    · next hrun =>
        cases hk
        exact .inr (.inr (.inl ⟨rfl, h.wake hcur hrun⟩))
    · split at hk
      · next hrun =>
          obtain ⟨r, hend, heq⟩ := Option.map_eq_some_iff.mp hk
          obtain ⟨hans, rfl⟩ := Prod.mk.inj heq
          obtain ⟨t, ht, hat, -, hstat, -, -, hcases⟩ := pendEnd_cases hok hrun
          obtain rfl := Option.some.inj (ht₀.symm.trans (hcur ▸ ht))
          have hin : Inside o k t₀ e w a := by
            cases hview with
            | outside hpc => rcases hpc with hpc | hpc <;> rw [hat] at hpc <;> cases hpc
            | inside e' w' hw' hpc hin =>
                obtain rfl : e = e' := by
                  rcases hpc with hpc | hpc <;> rw [hat] at hpc <;> cases hpc; rfl
                exact hw'.unique hw ▸ hin
          have hpending : a.pending = false :=
            Bool.eq_false_iff.mpr fun hp => hin.pending.mp hp hstat
          refine .inr (.inr (.inr ⟨hin.inPend, hpending, h.leave hok hcur hrun hend, ?_⟩))
          rcases hcases with ⟨hpend, hno, heq'⟩ | ⟨hpend, -, heq'⟩
          · obtain rfl := Option.some.inj (hend.symm.trans heq')
            refine .inl ⟨?_, ?_⟩
            · cases hstatPend : a.OSTCBStatPend with
              | OS_STAT_PEND_OK => rfl
              | OS_STAT_PEND_TO =>
                  have hto := hin.timedOut.mp hstatPend
                  rw [hpend] at hto
                  cases hto
            · rw [hin.msg (hcur ▸ hno)]
              exact hans.symm
          · obtain rfl := Option.some.inj (hend.symm.trans heq')
            exact .inr ⟨hin.timedOut.mpr hpend, hans.symm⟩
      · cases hk

/-- **A pend on the queue** is answered as by the kernel of the thread's own, or takes a step more
there. -/
theorem serve_queue {timeout : UInt32} {ans : Option (UInt32 × NetCamera.OsErr)} (hok : Ok k)
    (h : Shown o k a) (hcur : k.OSPrioCur = o.prio) (hlock : k.OSLockNesting = 0)
    (hk : k.serve o (.OSQPend timeout) = some (ans, k')) :
    (∃ a', a.OSQPend timeout = some (ans, a') ∧ Shown o k' a' ∧ a'.OSTime = a.OSTime) ∨
      ans = none ∧ Shown o k' a := by
  obtain ⟨r, hr, heq⟩ := Option.map_eq_some_iff.mp hk
  obtain ⟨rfl, rfl⟩ := Prod.mk.inj heq
  obtain ⟨pq, hqueue, hcontents, hsize⟩ := h.queue
  have hpend : k.OSQPend o.mbox timeout = k.pend o.mbox timeout := by
    rw [OSQPend, hqueue]
    rfl
  rw [hpend] at hr
  rcases servePend_cases hok h .queue hcur hlock hr with ⟨hin, m, object, htake, hans, hset⟩ |
    ⟨hin, htake, hans, hshown⟩ | ⟨hans, hshown⟩ | ⟨hin, hpending, hshown, hend⟩
  · rw [hqueue, Object.take] at htake
    obtain ⟨hpos, htake⟩ := Option.dite_none_right_eq_some.mp htake
    obtain ⟨rfl, rfl⟩ := Prod.mk.inj (Option.some.inj htake)
    have hmsg : a.OSQ = (pq.take hpos).1 :: (pq.take hpos).2.contents := by
      rw [hcontents, pq.contents_take hpos]
    refine .inl ⟨{ a with OSQ := (pq.take hpos).2.contents }, ?_, hset ▸ h.setQueue hsize, rfl⟩
    rw [NetCamera.Kernel.OSQPend, hin, hmsg, hans]
    rfl
  · have hempty : a.OSQ = [] := by
      have hnone := Object.contents_of_take_none htake
      rw [hqueue] at hnone
      rw [hcontents]
      exact hnone
    refine .inl ⟨_, ?_, hshown, rfl⟩
    rw [NetCamera.Kernel.OSQPend, hin, hempty, hans]
    rfl
  · rw [hans]
    exact .inr ⟨rfl, hshown⟩
  · refine .inl ⟨_, ?_, hshown 0, rfl⟩
    rw [NetCamera.Kernel.OSQPend, hin, hpending]
    rcases hend with ⟨hstat, hans⟩ | ⟨hstat, hans⟩ <;> rw [hstat, hans] <;> rfl

/-- **A pend on the semaphore**, too. -/
theorem serve_sem {timeout : UInt32} {ans : Option NetCamera.OsErr} (hok : Ok k)
    (h : Shown o k a) (hcur : k.OSPrioCur = o.prio) (hlock : k.OSLockNesting = 0)
    (hk : k.serve o (.OSSemPend timeout) = some (ans, k')) :
    (∃ a', a.OSSemPend timeout = some (ans, a') ∧ Shown o k' a' ∧ a'.OSTime = a.OSTime) ∨
      ans = none ∧ Shown o k' a := by
  obtain ⟨r, hr, heq⟩ := Option.map_eq_some_iff.mp hk
  obtain ⟨rfl, rfl⟩ := Prod.mk.inj heq
  have hpend : k.OSSemPend o.sem timeout = k.pend o.sem timeout := by
    rw [OSSemPend, h.sem]
    rfl
  rw [hpend] at hr
  rcases servePend_cases hok h .sem hcur hlock hr with ⟨hin, m, object, htake, hans, hset⟩ |
    ⟨hin, htake, hans, hshown⟩ | ⟨hans, hshown⟩ | ⟨hin, hpending, hshown, hend⟩
  · rw [h.sem, Object.take] at htake
    obtain ⟨hpos, htake⟩ := Option.ite_none_right_eq_some.mp htake
    obtain ⟨rfl, rfl⟩ := Prod.mk.inj (Option.some.inj htake)
    have hcount : a.OSEventCnt > 0 := hpos
    refine .inl ⟨{ a with OSEventCnt := a.OSEventCnt - 1 }, ?_, hset ▸ h.setSem _, rfl⟩
    rw [NetCamera.Kernel.OSSemPend, hin, if_pos hcount, hans]
    rfl
  · rw [h.sem, Object.take] at htake
    have hzero : ¬ a.OSEventCnt > 0 := fun hpos => by
      rw [if_pos hpos] at htake
      cases htake
    refine .inl ⟨_, ?_, hshown, rfl⟩
    rw [NetCamera.Kernel.OSSemPend, hin, if_neg hzero, hans]
    rfl
  · rw [hans]
    exact .inr ⟨rfl, hshown⟩
  · refine .inl ⟨_, ?_, hshown a.OSTCBMsg, rfl⟩
    rw [NetCamera.Kernel.OSSemPend, hin, hpending]
    rcases hend with ⟨hstat, hans⟩ | ⟨hstat, hans⟩ <;> rw [hstat, hans] <;> rfl

end Kernel

/-- What the thread sees behind a step of its task. -/
theorem View.next {a' : NetCamera.Kernel} (h : View o s a)
    (hk : k' = s.kernel ∨ ∃ ev, ¬ Kernel.Moves ev ∧ s.kernel.step ev = some k')
    (hshown : k'.Shown o a') (htime : a'.OSTime = a.OSTime) :
    View o { s with kernel := k' } a' := by
  have hstep : k'.Ok ∧ s.kernel.Still k' := by
    rcases hk with rfl | ⟨ev, hev, hk⟩
    · exact ⟨h.ok, .refl _⟩
    · exact ⟨Kernel.ok_step h.ok hk, Kernel.still_step h.ok hev hk⟩
  obtain ⟨hok, hs⟩ := hstep
  refine ⟨hok, hshown, fun hcur => ?_, ?_, fun ht => ?_⟩
  · exact hs.lock.trans (h.unlocked (hs.cur.symm.trans hcur))
  · exact hs.time.trans (h.time.trans (by rw [htime]))
  · exact fun hzero => h.ticking ht (hs.nest.symm.trans hzero)

/-- **A call of the thread** is answered as by the kernel of its own, or takes a step more. -/
theorem View.serve {q : OsCall} {ans : Option q.Answer} {u : Watched} (h : View o s a)
    (hserve : (rtos o).serve q s = some (ans, u)) :
    (∃ a', ucos.serve q a = some (ans, a') ∧ View o u a') ∨ ans = none ∧ View o u a := by
  obtain ⟨hcur, hserve⟩ := Option.ite_none_right_eq_some.mp hserve
  obtain ⟨⟨ans', k'⟩, hk, heq⟩ := Option.map_eq_some_iff.mp hserve
  obtain ⟨rfl, rfl⟩ := Prod.mk.inj heq
  have hlock := h.unlocked hcur
  have hstep := Kernel.serve_step hk
  cases q with
  | OSTimeGet =>
      obtain ⟨hmay, heq⟩ := Option.ite_none_right_eq_some.mp hk
      obtain ⟨rfl, rfl⟩ := Prod.mk.inj (Option.some.inj heq)
      -- the task runs in no interrupt, so the tick is over
      have hover : s.ticking = false := Bool.eq_false_iff.mpr fun ht =>
        h.ticking ht (Kernel.runsAt_iff.mp (Kernel.mayCall_iff.mp hmay).1).1
      have htime := h.time
      rw [hover] at htime
      refine .inl ⟨a, ?_, h⟩
      rw [htime.trans (UInt32.add_zero _)]
      rfl
  | OSQPend timeout =>
      rcases Kernel.serve_queue h.ok h.shown hcur hlock hk with ⟨a', hans, hshown, htime⟩ |
        ⟨hans, hshown⟩
      · exact .inl ⟨a', hans, h.next hstep hshown htime⟩
      · exact .inr ⟨hans, h.next hstep hshown rfl⟩
  | OSSemPend timeout =>
      rcases Kernel.serve_sem h.ok h.shown hcur hlock hk with ⟨a', hans, hshown, htime⟩ |
        ⟨hans, hshown⟩
      · exact .inl ⟨a', hans, h.next hstep hshown htime⟩
      · exact .inr ⟨hans, h.next hstep hshown rfl⟩

end View

/-! ## What holds in every run -/

section Runs

variable {α : Type} {o : Owner} {k : Kernel} {p : Os α} {objects : Ev → Object}
  {prios : List Prio} {evs : List Event}

/-- The task is in no pend, its objects are a queue and a semaphore that nobody waits for, and the
scheduler is not locked where it runs. -/
structure Starts (o : Owner) (k : Kernel) : Prop where
  queue : (k.OSEventTbl o.mbox).object.isQueue = true
  sem : (k.OSEventTbl o.sem).object.isQueue = false
  alone : ∀ e w, Kernel.Waits o e w → ∀ q, q ∉ k.waiting e
  task : ∃ t, k.OSTCBPrioTbl o.prio = some t ∧
    (t.OSTCBStkPtr = .code ∨ t.OSTCBStkPtr = .sched)
  unlocked : k.OSPrioCur = o.prio → k.OSLockNesting = 0

/-- What the thread sees first. -/
def Owner.sees (o : Owner) (k : Kernel) : NetCamera.Kernel where
  OSTime := k.OSTime
  OSQ := (k.OSEventTbl o.mbox).object.contents
  OSQSize :=
    match (k.OSEventTbl o.mbox).object with
    | .queue pq => pq.OSQSize
    | .sem _ => 0
  OSEventCnt :=
    match (k.OSEventTbl o.sem).object with
    | .queue _ => 0
    | .sem n => n
  inPend := false
  waitsOn := none
  pending := false
  OSTCBStatPend := .OS_STAT_PEND_OK
  OSTCBDly := 0
  OSTCBMsg := 0

/-- There the thread sees its objects, and itself in no pend. -/
theorem Starts.view (h : Starts o k) (hok : k.Ok) : View o ⟨k, false⟩ (o.sees k) := by
  obtain ⟨t, ht, hpc⟩ := h.task
  refine ⟨hok, ⟨?_, ?_, fun e w hw q hq => absurd hq (h.alone e w hw q), t, ht,
    .outside hpc rfl rfl⟩, h.unlocked, (UInt32.add_zero _).symm, nofun⟩
  · have hq := h.queue
    rw [Owner.sees]
    cases hobj : (k.OSEventTbl o.mbox).object with
    | queue pq => exact ⟨pq, rfl, rfl, rfl⟩
    | sem n =>
        rw [hobj] at hq
        cases hq
  · have hs := h.sem
    rw [Owner.sees]
    cases hobj : (k.OSEventTbl o.sem).object with
    | queue pq =>
        rw [hobj] at hs
        cases hs
    | sem n => rfl

/-- A program of the task goes on as over `ucos`. -/
theorem Starts.run (hstart : Starts o k) (hok : k.Ok) {es : List (Calls.Event Event)}
    {u : Thread OsCall.Answer Watched α}
    (hrun : RunBy (rtos o).step (OnEnv (Around o)) (.start p ⟨k, false⟩) es u) :
    ∃ es' u', Run.run ucos.step (.start p (o.sees k)) es' = some u' ∧ u'.prog = u.prog ∧
      u'.log = u.log ∧ envs es' = (envs es).flatMap o.seen := by
  have halike : Alike (View o) (.start p ⟨k, false⟩) (Thread.start p (o.sees k)) :=
    ⟨rfl, rfl, hstart.view hok⟩
  obtain ⟨es', u', hrun', hend, henvs⟩ :=
    simulates (fun hv hserve => hv.serve hserve) (fun hv hr => hv.env hr) halike hrun
  exact ⟨es', u', hrun', hend.prog, hend.log, henvs⟩

/-- The ticks that the thread sees. -/
theorem count_flatMap_seen (o : Owner) (evs : List Event) :
    (evs.flatMap o.seen).count .OSTimeTick = evs.count (.tickTcb o.prio) := by
  induction evs with
  | nil => rfl
  | cons ev evs ih =>
      rw [List.flatMap_cons, List.count_append, ih, List.count_cons, Nat.add_comm]
      congr 1
      cases ev with
      | tickTcb q => by_cases hq : q = o.prio <;> simp [Owner.seen, hq]
      | OSQPost e m => by_cases he : e = o.mbox <;> simp [Owner.seen, he]
      | OSSemPost e => by_cases he : e = o.sem <;> simp [Owner.seen, he]
      | _ => rfl

/-- The kernel with the most urgent of its tasks running. -/
def atWork (prios : List Prio) : Kernel :=
  Kernel.behind Kernel.oneQueue prios [.OS_CPU_PendSVHandler]

/-- A tick interrupt. -/
def tickIsr (prios : List Prio) : List (Calls.Event Event) :=
  [.env .OSIntEnter, .env .OSTime] ++ prios.map (fun p => .env (.tickTcb p)) ++ [.env .OSIntExit]

/-- A fetch reads the clock, pends and lets another task run; after two ticks its time is up. -/
def twoTicks (prios : List Prio) : List (Calls.Event Event) :=
  [.go, .go, .go, .env .OS_CPU_PendSVHandler] ++ tickIsr prios ++ tickIsr prios ++
    [.env .OS_CPU_PendSVHandler, .go]

/-- The fetch before that, and behind it. -/
def fetching (prios : List Prio) : Thread OsCall.Answer Watched (UInt32 × Option UInt32) :=
  .start (sys_arch_mbox_fetch 9 true 2) ⟨atWork prios, false⟩

def fetched (o : Owner) (prios : List Prio) :
    Thread OsCall.Answer Watched (UInt32 × Option UInt32) :=
  (run (rtos o).step (fetching prios) (twoTicks prios)).getD (fetching prios)

theorem run_atWork : run Kernel.step (Kernel.boot Kernel.oneQueue [5, 6])
    [.OS_CPU_PendSVHandler] = some (atWork [5, 6]) :=
  Kernel.run_behind (by decide +kernel)

/-- Nobody waits yet. -/
theorem starts_atWork : Starts ⟨5, 0, 1, by decide⟩ (atWork [5, 6]) := by
  refine ⟨by decide +kernel, by decide +kernel, fun e w hw => ?_,
    ⟨⟨OS_STAT_RDY, .OS_STAT_PEND_OK, 0, 0, .code⟩, by decide +kernel, .inl rfl⟩,
    fun _ => by decide +kernel⟩
  cases hw <;> decide +kernel

theorem runBy_twoTicks : RunBy (rtos ⟨5, 0, 1, by decide⟩).step (OnEnv (Around ⟨5, 0, 1, by decide⟩))
    (fetching [5, 6]) (twoTicks [5, 6]) (fetched ⟨5, 0, 1, by decide⟩ [5, 6]) := by
  have hsome : (run (rtos ⟨5, 0, 1, by decide⟩).step (fetching [5, 6])
      (twoTicks [5, 6])).isSome = true := by
    decide +kernel
  refine ⟨?_, by decide +kernel⟩
  rw [fetched, Option.getD_of_ne_none (Option.isSome_iff_ne_none.mp hsome)]

/-- **A thread of the kernel is one of `ucos`.**  In every run of the kernel, from any state in
which the task is in no pend and nobody waits for its mailbox and its semaphore: a program of the
task gets from the kernel, among all tasks and interrupts, the answers that `ucos` gives it, where
the ticks are those that came to the task and the posts those to its objects, in their order. -/
theorem run_as_ucos (hboot : run Kernel.step (Kernel.boot objects prios) evs = some k)
    (hstart : Starts o k) {es : List (Calls.Event Event)} {u : Thread OsCall.Answer Watched α}
    (hrun : RunBy (rtos o).step (OnEnv (Around o)) (.start p ⟨k, false⟩) es u) :
    ∃ es' u', run ucos.step (.start p (o.sees k)) es' = some u' ∧ u'.prog = u.prog ∧
      u'.log = u.log ∧ envs es' = (envs es).flatMap o.seen :=
  hstart.run (Kernel.ok_of_run (Kernel.ok_boot objects prios) hboot) hrun

/-- The fetch that task 5 gives up after two ticks. -/
theorem run_as_ucos_twoTicks : ∃ es' u', run ucos.step
    (.start (sys_arch_mbox_fetch 9 true 2) (Owner.sees ⟨5, 0, 1, by decide⟩ (atWork [5, 6])))
      es' = some u' ∧
    u'.prog = (fetched ⟨5, 0, 1, by decide⟩ [5, 6]).prog ∧
    u'.log = (fetched ⟨5, 0, 1, by decide⟩ [5, 6]).log ∧
    envs es' = (envs (twoTicks [5, 6])).flatMap (Owner.seen ⟨5, 0, 1, by decide⟩) :=
  run_as_ucos run_atWork starts_atWork runBy_twoTicks

/-- **A time-out of a fetch is not early**, whatever the other tasks and the interrupts do: when
the fetch returns one, the ticks that were handed over came to its task, and below 65536
milliseconds those are the time that was asked for. -/
theorem run_fetch_timeout (hboot : run Kernel.step (Kernel.boot objects prios) evs = some k)
    (hstart : Starts o k) {pvNullPointer timeout : UInt32} {msg : Bool}
    {es : List (Calls.Event Event)} {u : Thread OsCall.Answer Watched (UInt32 × Option UInt32)}
    (hrun : RunBy (rtos o).step (OnEnv (Around o))
      (.start (sys_arch_mbox_fetch pvNullPointer msg timeout) ⟨k, false⟩) es u)
    {r : UInt32 × Option UInt32} (hret : u.prog = .ret r) (htimeout : r.1 = SYS_ARCH_TIMEOUT) :
    (pendTicks timeout).toNat ≤ (envs es).count (.tickTcb o.prio) ∧
      (timeout.toNat < 65536 → timeout.toNat ≤ (envs es).count (.tickTcb o.prio)) := by
  obtain ⟨es', u', hrun', hprog, -, henvs⟩ :=
    hstart.run (Kernel.ok_of_run (Kernel.ok_boot objects prios) hboot) hrun
  have hticks : ticks es' = (envs es).count (.tickTcb o.prio) := by
    rw [← count_flatMap_seen, ← henvs, count_envs, ticks]
  have hret' := hprog.trans hret
  rw [← hticks]
  exact ⟨fetch_timeout hrun' hret' htimeout rfl,
    fetch_timeout_of_lt hrun' hret' htimeout rfl⟩

/-- Two milliseconds are two ticks. -/
theorem run_fetch_timeout_twoTicks :
    (pendTicks 2).toNat ≤ (envs (twoTicks [5, 6])).count (.tickTcb 5) ∧
      ((2 : UInt32).toNat < 65536 →
        (2 : UInt32).toNat ≤ (envs (twoTicks [5, 6])).count (.tickTcb 5)) :=
  run_fetch_timeout run_atWork starts_atWork runBy_twoTicks
    (show (fetched _ [5, 6]).prog = .ret (SYS_ARCH_TIMEOUT, some 0) by decide +kernel) rfl

end Runs

end NetCamera.Rtos
