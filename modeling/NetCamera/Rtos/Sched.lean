import NetCamera.Rtos.Calls

/-!
# NetCamera.Rtos.Sched

The invariant holds in every state of every run (`ok_of_run`), and with it the promise of the
scheduler: a task that runs code of its own while the scheduler is not locked is the most urgent
of all that are ready (`run_most_urgent`).
-/

namespace NetCamera.Rtos

open Run

namespace Kernel

/-! ## Steps -/

section Steps

variable {k : Kernel} {e : Ev}

/-- A change of the control variables only. -/
theorem ok_ctl {k k' : Kernel} (h : Ok k) (htcb : k'.OSTCBPrioTbl = k.OSTCBPrioTbl)
    (hrdy : k'.OSRdyTbl = k.OSRdyTbl) (hevent : k'.OSEventTbl = k.OSEventTbl) (hs : SchedOk k') :
    Ok k' := by
  refine ⟨fun q => (h.task q).congr (by rw [htcb]) (by rw [hrdy]) (fun e => ?_) fun e => ?_,
    fun e => (h.store e).congr (by rw [hevent]) fun p hp => ?_, hs⟩
  · rw [waiting, hevent, waiting]
  · rw [kind, hevent, kind]
  · rwa [waiting, hevent] at hp

theorem ok_OSIntEnter (h : Ok k) (hnest : k.OSIntNesting < 255) : Ok k.OSIntEnter := by
  rw [OSIntEnter, if_pos hnest]
  exact ok_ctl h rfl rfl rfl (Half.schedOk ⟨h.sched.cur, h.sched.idle,
    h.sched.pendSV_unlocked, h.sched.locked⟩ (.inl (succ_ne_zero hnest)))

/-- An interrupt that ends looks for the task to go on with as `OS_Sched` does. -/
theorem OSIntExit_eq (hnest : 0 < k.OSIntNesting) :
    k.OSIntExit = { k with OSIntNesting := k.OSIntNesting - 1 }.OS_Sched := by
  rw [OSIntExit, if_pos hnest]
  rfl

theorem ok_OS_Sched (htask : ∀ q, TaskOk k q) (hstore : ∀ e, StoreOk k e) (hhalf : Half k) :
    Ok k.OS_Sched := by
  obtain ⟨hp, sv, heq⟩ := OS_Sched_eq k
  have hs := hhalf.schedOk_OS_Sched htask
  rw [heq] at hs ⊢
  exact ⟨fun q => (htask q).congr rfl Iff.rfl (fun _ => Iff.rfl) fun _ => rfl,
    fun e => (hstore e).congr rfl fun _ hp => hp, hs⟩

theorem ok_OSIntExit (h : Ok k) (hnest : 0 < k.OSIntNesting) : Ok k.OSIntExit := by
  rw [OSIntExit_eq hnest]
  exact ok_OS_Sched (fun q => (h.task q).congr rfl Iff.rfl (fun _ => Iff.rfl) fun _ => rfl)
    (fun e => (h.store e).congr rfl fun _ hp => hp)
    ⟨h.sched.cur, h.sched.idle, h.sched.pendSV_unlocked, h.sched.locked⟩

/-- The switch goes to the most urgent task. -/
theorem ok_PendSV (h : Ok k) (hnest : k.OSIntNesting = 0) (hsv : k.pendSV = true) :
    Ok k.OS_CPU_PendSVHandler := by
  have hleast := h.sched.highRdy hnest hsv
  have hlock := h.sched.pendSV_unlocked hsv
  obtain ⟨t, ht⟩ := (h.task _).exists_of_ready hleast.1
  refine ok_ctl h rfl rfl rfl (Half.schedOk ⟨⟨t, ht⟩, h.sched.idle, fun _ => hlock,
    fun hne => absurd hlock hne⟩ (.inr ⟨rfl, .inr (.inr hleast)⟩))

theorem ok_posted {k' : Kernel} (h : Ok k) {r : Posted}
    (hr : (∃ e pmsg, r = k.post e pmsg) ∨ ∃ err, r = ⟨k, err, none⟩)
    (hk : k.posted r = some k') : Ok k' := by
  have hcall : Call k r.kernel := by
    rcases hr with ⟨e, pmsg, rfl⟩ | ⟨err, rfl⟩
    · exact call_post h e pmsg
    · exact .refl h
  have hrdy : r.handedTo.isSome = false → ∀ p, p ∈ r.kernel.OSRdyTbl ↔ p ∈ k.OSRdyTbl := by
    rcases hr with ⟨e, pmsg, rfl⟩ | ⟨err, rfl⟩
    · intro hnone p
      rw [rdy_post h pmsg hnone]
    · exact fun _ _ => Iff.rfl
  rw [posted] at hk
  split at hk
  · next hnest =>
      obtain rfl := Option.some.inj hk
      split
      · exact ok_OS_Sched hcall.task hcall.store (hcall.half h)
      · exact hcall.ok_of_isr h (UInt8.pos_iff_ne_zero.mp hnest)
  · split at hk
    · next hmay =>
        obtain rfl := Option.some.inj hk
        exact hcall.ok_goOnAt h hmay _ hrdy
    · cases hk

theorem OSQPost_cases (k : Kernel) (e : Ev) (pmsg : Msg) :
    (∃ e' pmsg', k.OSQPost e pmsg = k.post e' pmsg') ∨
      ∃ err, k.OSQPost e pmsg = ⟨k, err, none⟩ := by
  rw [OSQPost]
  split
  · exact .inl ⟨_, _, rfl⟩
  · exact .inr ⟨_, rfl⟩

theorem OSSemPost_cases (k : Kernel) (e : Ev) :
    (∃ e' pmsg', k.OSSemPost e = k.post e' pmsg') ∨ ∃ err, k.OSSemPost e = ⟨k, err, none⟩ := by
  rw [OSSemPost]
  split
  · exact .inr ⟨_, rfl⟩
  · exact .inl ⟨_, _, rfl⟩

/-- A task that is not in code of its own is not the idle task. -/
theorem Ok.cur_ne_idle (h : Ok k) {pc : Pc} (hrun : k.runsAt pc = true) (hpc : pc ≠ .code) :
    k.OSPrioCur ≠ OS_TASK_IDLE_PRIO := by
  intro hidle
  obtain ⟨-, -, t, ht, hat⟩ := runsAt_iff.mp hrun
  rw [hidle, h.sched.idle] at ht
  obtain rfl := Option.some.inj ht
  exact hpc hat.symm

/-- The first part of a pend. -/
theorem ok_pend (h : Ok k) (hmay : k.mayCall = true) (e : Ev) (timeout : UInt32) :
    Ok (pended e (k.pend e timeout)) := by
  obtain ⟨hrun, hcur⟩ := mayCall_iff.mp hmay
  obtain ⟨hnest, hoff, t, ht, hat⟩ := runsAt_iff.mp hrun
  rcases pend_cases hnest ht e timeout with ⟨-, hpend⟩ |
    ⟨hlock, ⟨m, object, htake, hpend⟩ | ⟨htake, hpend⟩⟩
  · rw [hpend]
    exact h
  · rw [hpend]
    have hleast := h.sched.running hlock _ hrun (.inl rfl)
    refine ⟨task_setObject h.task (Object.stat_of_take htake),
      store_setObject h.store fun _ => h.store e ?_, ?_⟩
    · rw [Object.contents_of_take htake]
      exact List.cons_ne_nil _ _
    · have hhalf : Half (k.setEvent e { k.OSEventTbl e with object }) :=
        h.sched.half.of_same ⟨rfl, rfl, rfl, rfl⟩ rfl rfl
      exact hhalf.schedOk (.inr ⟨hoff, .inr (.inr hleast)⟩)
  · rw [hpend]
    obtain ⟨t', ht', -, hmem, hstat, -, hpc⟩ := h.ready_of_runs hlock hrun (.inl rfl)
    obtain rfl := Option.some.inj (ht.symm.trans ht')
    refine ⟨task_blocked h hstat hpc.2 timeout, store_goOn (fun e' => ?_) _, ?_⟩
    · -- a task waits only for an empty object
      by_cases he : e' = e
      · intro hne
        rw [object_blocked, he] at hne
        exact absurd (Object.contents_of_take_none htake) hne
      · refine (h.store e').congr (object_blocked e e') fun p hp => ?_
        exact ((mem_waiting_blocked e e').mp hp).resolve_left fun h => he h.1
    · have hhalf : Half (k.blocked e t timeout) := by
        refine h.sched.half.of_same ⟨rfl, rfl, rfl, rfl⟩ ?_ ?_
        · exact Function.update_of_ne (Ne.symm hcur) _ _
        · show (Function.update k.OSTCBPrioTbl k.OSPrioCur (some _) k.OSPrioCur).map _ = _
          rw [Function.update_self, ht]
          rfl
      exact hhalf.schedOk_goOn hcur hoff (fun hne => absurd hlock hne)
        (.inr (.inr (.inl ⟨e, rfl⟩)))

theorem ok_pended (h : Ok k) (hmay : k.mayCall = true) {r : Pended} (e : Ev)
    (hr : (∃ timeout, r = k.pend e timeout) ∨ ∃ m err, r = .returns m err k) :
    Ok (pended e r) := by
  rcases hr with ⟨timeout, rfl⟩ | ⟨m, err, rfl⟩
  · exact ok_pend h hmay e timeout
  · exact h

theorem OSQPend_cases (k : Kernel) (e : Ev) (timeout : UInt32) :
    (∃ timeout', k.OSQPend e timeout = k.pend e timeout') ∨
      ∃ m err, k.OSQPend e timeout = .returns m err k := by
  rw [OSQPend]
  split
  · exact .inl ⟨_, rfl⟩
  · exact .inr ⟨_, _, rfl⟩

theorem OSSemPend_cases (k : Kernel) (e : Ev) (timeout : UInt32) :
    (∃ timeout', k.OSSemPend e timeout = k.pend e timeout') ∨
      ∃ m err, k.OSSemPend e timeout = .returns m err k := by
  rw [OSSemPend]
  split
  · exact .inr ⟨_, _, rfl⟩
  · exact .inl ⟨_, rfl⟩

/-- A task goes on behind `OS_Sched`; it runs there when it is the most urgent one. -/
theorem ok_goOn_OS_Sched (h : Ok k) {pc pc' : Pc} (hrun : k.runsAt pc = true) (hne : pc ≠ .code)
    (hlocked : k.OSLockNesting ≠ 0 → pc' = .code)
    (hat : ∀ t, k.OSTCBPrioTbl k.OSPrioCur = some t → AtPc k k.OSPrioCur t pc →
      AtPc k k.OSPrioCur t pc') :
    Ok (k.OS_Sched.goOn pc') := by
  obtain ⟨hnest, hoff, t, ht, htpc⟩ := runsAt_iff.mp hrun
  have hcur := h.cur_ne_idle hrun hne
  obtain ⟨hp, sv, heq⟩ := OS_Sched_eq k
  obtain ⟨hrdy, hpc⟩ := (h.task _).of_some ht
  have htask : ∀ q, TaskOk k.OS_Sched q := fun q => by
    rw [heq]
    exact (h.task q).congr rfl Iff.rfl (fun _ => Iff.rfl) fun _ => rfl
  have hpc' : AtPc k k.OSPrioCur t pc' := hat t ht (htpc ▸ hpc)
  refine ⟨fun q => ?_, store_goOn (fun e => ?_) pc', ?_⟩
  · rw [heq] at htask ⊢
    have hnew : AtPc { k with OSPrioHighRdy := hp, pendSV := sv } k.OSPrioCur t pc' :=
      hpc'.congr (fun _ => rfl) fun _ => Iff.rfl
    exact task_goOn (fun q _ => htask q) ht hrdy hnew q
  · rw [heq]
    exact (h.store e).congr rfl fun _ hp => hp
  · by_cases hlock : k.OSLockNesting = 0
    · obtain ⟨hleast, hsame⟩ := OS_Sched_spec hnest hlock (h.sched.half.rdy_ne h.task)
      rw [heq] at hleast hsame ⊢
      have hhalf : Half (k.goOn pc') := h.sched.half.goOn hcur fun hn => absurd hlock hn
      refine ⟨hhalf.cur, hhalf.idle, fun _ => hlock, fun _ _ => hleast,
        fun _ pc'' hat'' _ => ?_, fun hn => absurd hlock hn⟩
      exact hsame (runsAt_iff.mp hat'').2.1 ▸ hleast
    · have hsame : k.OS_Sched = k := by rw [OS_Sched, if_pos hnest, if_neg hlock]
      rw [hsame]
      exact h.sched.half.schedOk_goOn hcur hoff (fun hn => .inl (hlocked hn)) (.inl hlock)

/-- The end of a pend. -/
theorem ok_pendEnd (h : Ok k) (hrun : k.runsAt (.pendWake e) = true)
    {r : Msg × OsErr × Kernel} (hr : k.pendEnd e = some r) : Ok (r.2.2.goOn .code) := by
  have hcur := h.cur_ne_idle hrun (by simp)
  have hoff := (runsAt_iff.mp hrun).2.1
  have hlock := h.unlocked_of_wake hrun
  have hleast := h.sched.running hlock _ hrun (.inr ⟨e, rfl⟩)
  obtain ⟨t, -, -, -, -, -, -, hend⟩ := pendEnd_cases h hrun
  have hhalf : Half (k.setTcb k.OSPrioCur (ended t)) := by
    refine ⟨⟨ended t, Function.update_self ..⟩, ?_, h.sched.pendSV_unlocked,
      fun hne => absurd hlock hne⟩
    exact (Function.update_of_ne (Ne.symm hcur) _ _).trans h.sched.idle
  have hsched : SchedOk ((k.setTcb k.OSPrioCur (ended t)).goOn .code) :=
    hhalf.schedOk_goOn hcur hoff (fun _ => .inl rfl) (.inr (.inr (.inr hleast)))
  rcases hend with ⟨-, -, hend⟩ | ⟨-, -, hend⟩ <;>
    obtain rfl := Option.some.inj (hr.symm.trans hend)
  · exact ⟨task_pendEnd h hrun hr, fun e' => (h.store e').congr rfl fun _ hp => hp, hsched⟩
  · refine ⟨task_pendEnd h hrun hr, fun e' => ?_, hsched.cur, hsched.idle, hsched.pendSV_unlocked,
      hsched.highRdy, hsched.running, hsched.locked⟩
    refine (h.store e').congr (object_remove ..) fun p hp => ?_
    have hp' : p ∈ (k.OS_EventTaskRemove k.OSPrioCur e).waiting e' := hp
    rw [mem_waiting_remove] at hp'
    exact hp'.2

/-- A task that takes itself off the ready list. -/
theorem ok_block (h : Ok k) (hmay : k.mayCall = true) {t : OS_TCB}
    (hstat : t.OSTCBStat = OS_STAT_RDY ∨ t.OSTCBStat = OS_STAT_SUSPEND)
    (hblock : ¬(t.OSTCBStat = OS_STAT_RDY ∧ t.OSTCBDly = 0)) (hat : t.OSTCBStkPtr = .code) :
    Ok (({ k with OSRdyTbl := k.OSRdyTbl.remove k.OSPrioCur }.setTcb k.OSPrioCur t).goOn
      .sched) := by
  obtain ⟨hrun, hcur⟩ := mayCall_iff.mp hmay
  obtain ⟨-, hoff, t₀, ht₀, hat₀⟩ := runsAt_iff.mp hrun
  have hhalf :
      Half ({ k with OSRdyTbl := k.OSRdyTbl.remove k.OSPrioCur }.setTcb k.OSPrioCur t) := by
    refine h.sched.half.of_same ⟨rfl, rfl, rfl, rfl⟩ (Function.update_of_ne (Ne.symm hcur) _ _) ?_
    show (Function.update k.OSTCBPrioTbl k.OSPrioCur (some t) k.OSPrioCur).map _ = _
    rw [Function.update_self, ht₀, Option.map_some, Option.map_some, hat, hat₀]
  exact ⟨task_block h hrun hstat hblock, fun e => (h.store e).congr rfl fun _ hp => hp,
    hhalf.schedOk_goOn hcur hoff (fun _ => .inr rfl) (.inr (.inl rfl))⟩

theorem ok_OSTimeDly (h : Ok k) (hmay : k.mayCall = true) (ticks : UInt32) :
    Ok ((k.OSTimeDly ticks).1.goOnAt (k.OSTimeDly ticks).2) := by
  have hstay : Ok (k.goOnAt false) := (Call.refl h).ok_goOnAt h hmay false fun _ _ => Iff.rfl
  obtain ⟨hrun, hcur⟩ := mayCall_iff.mp hmay
  rw [OSTimeDly]
  split
  · exact hstay
  · split
    · exact hstay
    · next hlock =>
        split
        · next hticks =>
            obtain ⟨t, ht, hat, -, hstat, -, -⟩ :=
              h.ready_of_runs (eq_zero_of_not_pos hlock) hrun (.inl rfl)
            rw [OSTCBCur, ht]
            refine ok_block h hmay (.inl hstat) (fun hr => ?_) hat
            have hzero : ticks = 0 := hr.2
            rw [hzero] at hticks
            exact absurd hticks (by decide)
        · exact hstay

theorem ok_OSTaskSuspend (h : Ok k) (hmay : k.mayCall = true) :
    Ok (k.OSTaskSuspend.goOn .sched) := by
  obtain ⟨hrun, hcur⟩ := mayCall_iff.mp hmay
  obtain ⟨t, ht, hat, -, hstat, -⟩ := h.at_code hrun
  have hor : t.OSTCBStat ||| OS_STAT_SUSPEND = OS_STAT_SUSPEND := by
    rcases hstat with hs | hs <;> rw [hs] <;> decide
  rw [OSTaskSuspend, OSTCBCur, ht]
  refine ok_block h hmay (.inr hor) (fun hr => ?_) hat
  have hrdy := hor.symm.trans hr.1
  exact absurd hrdy (by decide)

theorem ok_OSTaskCreate (h : Ok k) (hmay : k.mayCall = true) (prio : Prio) :
    Ok ((k.OSTaskCreate prio).2.goOnAt ((k.OSTaskCreate prio).1 = .OS_ERR_NONE)) := by
  refine (call_create h prio).ok_goOnAt h hmay _ fun hfail p => ?_
  have hfail' := of_decide_eq_false hfail
  rw [OSTaskCreate] at hfail' ⊢
  split
  · split
    · next hk' => simp [*] at hfail'
    · exact Iff.rfl
  · exact Iff.rfl

theorem ok_OSSchedLock (h : Ok k) (hmay : k.mayCall = true) : Ok k.OSSchedLock := by
  obtain ⟨hrun, hcur⟩ := mayCall_iff.mp hmay
  obtain ⟨hnest, hoff, t, ht, hat⟩ := runsAt_iff.mp hrun
  rw [OSSchedLock, if_pos hnest]
  split
  · next hlt =>
      refine ok_ctl h rfl rfl rfl (Half.schedOk ⟨h.sched.cur, h.sched.idle, fun hsv => ?_,
        fun _ t' ht' => ?_⟩ (.inr ⟨hoff, .inl (succ_ne_zero hlt)⟩))
      · have hsv' : k.pendSV = true := hsv
        rw [hoff] at hsv'
        cases hsv'
      · obtain rfl := Option.some.inj (ht.symm.trans ht')
        exact .inl hat
  · exact h

theorem ok_OSSchedUnlock (h : Ok k) (hmay : k.mayCall = true) :
    Ok (k.OSSchedUnlock.1.goOnAt k.OSSchedUnlock.2) := by
  obtain ⟨hrun, hcur⟩ := mayCall_iff.mp hmay
  obtain ⟨hnest, hoff, t, ht, hat⟩ := runsAt_iff.mp hrun
  rw [OSSchedUnlock, if_pos hnest]
  split
  · have htask : ∀ q, TaskOk { k with OSLockNesting := k.OSLockNesting - 1 } q := fun q =>
      (h.task q).congr rfl Iff.rfl (fun _ => Iff.rfl) fun _ => rfl
    have hhalf : Half { k with OSLockNesting := k.OSLockNesting - 1 } := by
      refine ⟨h.sched.cur, h.sched.idle, fun hsv => ?_, fun _ t' ht' => ?_⟩
      · have hsv' : k.pendSV = true := hsv
        rw [hoff] at hsv'
        cases hsv'
      · obtain rfl := Option.some.inj (ht.symm.trans ht')
        exact .inl hat
    refine ⟨task_goOnAt htask ht hat _, fun e => (h.store e).congr rfl fun _ hp => hp, ?_⟩
    dsimp only
    by_cases hzero : k.OSLockNesting - 1 = 0
    · rw [decide_eq_true hzero]
      exact hhalf.schedOk_goOn hcur hoff (fun _ => .inr rfl) (.inr (.inl rfl))
    · rw [decide_eq_false hzero]
      exact hhalf.schedOk_goOn hcur hoff (fun _ => .inl rfl) (.inl hzero)
  · exact (Call.refl h).ok_goOnAt h hmay false fun _ _ => Iff.rfl

/-- **Every step keeps the invariant.** -/
theorem ok_step {k' : Kernel} {ev : Event} (h : Ok k) (hk : k.step ev = some k') : Ok k' := by
  cases ev with
  | OSQPost e pmsg => exact ok_posted h (OSQPost_cases k e pmsg) hk
  | OSSemPost e => exact ok_posted h (OSSemPost_cases k e) hk
  | OS_Sched inPend =>
      cases inPend with
      | none =>
          obtain ⟨hrun, hk⟩ := Option.ite_none_right_eq_some.mp hk
          obtain rfl := Option.some.inj hk
          exact ok_goOn_OS_Sched h hrun (by simp) (fun _ => rfl) fun _ _ hat => hat
      | some e =>
          obtain ⟨hrun, hk⟩ := Option.ite_none_right_eq_some.mp hk
          obtain rfl := Option.some.inj hk
          obtain ⟨-, -, t, ht, hat⟩ := runsAt_iff.mp hrun
          refine ok_goOn_OS_Sched h hrun (by simp) (fun hne => ?_) fun _ _ hat => hat
          rcases h.sched.locked hne t ht with hc | hc <;> rw [hat] at hc <;> cases hc
  | pendEnd e =>
      obtain ⟨hrun, hk⟩ := Option.ite_none_right_eq_some.mp hk
      obtain ⟨r, hr, rfl⟩ := Option.map_eq_some_iff.mp hk
      exact ok_pendEnd h hrun hr
  | OSIntEnter =>
      obtain ⟨hnest, hk⟩ := Option.ite_none_right_eq_some.mp hk
      exact Option.some.inj hk ▸ ok_OSIntEnter h hnest
  | OSIntExit =>
      obtain ⟨hnest, hk⟩ := Option.ite_none_right_eq_some.mp hk
      exact Option.some.inj hk ▸ ok_OSIntExit h hnest
  | OS_CPU_PendSVHandler =>
      obtain ⟨⟨hnest, hsv⟩, hk⟩ := Option.ite_none_right_eq_some.mp hk
      exact Option.some.inj hk ▸ ok_PendSV h hnest hsv
  | OSTime =>
      obtain ⟨hnest, hk⟩ := Option.ite_none_right_eq_some.mp hk
      obtain rfl := Option.some.inj hk
      exact ok_ctl h rfl rfl rfl ⟨h.sched.cur, h.sched.idle, h.sched.pendSV_unlocked,
        h.sched.highRdy, h.sched.running, h.sched.locked⟩
  | tickTcb p =>
      obtain ⟨⟨hnest, hp⟩, hk⟩ := Option.ite_none_right_eq_some.mp hk
      exact Option.some.inj hk ▸ (call_tick h hp).ok_of_isr h (UInt8.pos_iff_ne_zero.mp hnest)
  | OSQPend e timeout =>
      obtain ⟨hmay, hk⟩ := Option.ite_none_right_eq_some.mp hk
      exact Option.some.inj hk ▸ ok_pended h hmay e (OSQPend_cases k e timeout)
  | OSSemPend e timeout =>
      obtain ⟨hmay, hk⟩ := Option.ite_none_right_eq_some.mp hk
      exact Option.some.inj hk ▸ ok_pended h hmay e (OSSemPend_cases k e timeout)
  | OSTimeDly ticks =>
      obtain ⟨hmay, hk⟩ := Option.ite_none_right_eq_some.mp hk
      exact Option.some.inj hk ▸ ok_OSTimeDly h hmay ticks
  | OSTaskSuspend =>
      obtain ⟨hmay, hk⟩ := Option.ite_none_right_eq_some.mp hk
      exact Option.some.inj hk ▸ ok_OSTaskSuspend h hmay
  | OSTaskCreate prio =>
      obtain ⟨hmay, hk⟩ := Option.ite_none_right_eq_some.mp hk
      exact Option.some.inj hk ▸ ok_OSTaskCreate h hmay prio
  | OSSchedLock =>
      obtain ⟨hmay, hk⟩ := Option.ite_none_right_eq_some.mp hk
      exact Option.some.inj hk ▸ ok_OSSchedLock h hmay
  | OSSchedUnlock =>
      obtain ⟨hmay, hk⟩ := Option.ite_none_right_eq_some.mp hk
      exact Option.some.inj hk ▸ ok_OSSchedUnlock h hmay

/-! ## Runs -/

/-- What holds while the tasks are created, before multitasking starts. -/
structure Built (k : Kernel) : Prop where
  task : ∀ q, TaskOk k q
  nobody : ∀ e p, p ∉ k.waiting e
  idle : k.OSTCBPrioTbl OS_TASK_IDLE_PRIO = some ⟨OS_STAT_RDY, .OS_STAT_PEND_OK, 0, 0, .code⟩
  lock : k.OSLockNesting = 0

theorem Built.create (h : Built k) (prio : Prio) : Built (k.OSTaskCreate prio).2 := by
  have htask := task_create h.task prio
  rcases create_eq k prio with heq | ⟨hnone, t, l, s, -, heq⟩
  · rw [heq]
    exact h
  · rw [heq] at htask ⊢
    refine ⟨htask, h.nobody, (Function.update_of_ne (fun hidle => ?_) _ _).trans h.idle, h.lock⟩
    rw [← hidle, h.idle] at hnone
    cases hnone

theorem built_OSInit (objects : Ev → Object) : Built (OSInit objects) := by
  have hempty : ∀ q, TaskOk
      { OSTime := 0, OSIntNesting := 0, OSLockNesting := 0, OSPrioCur := 0, OSPrioHighRdy := 0,
        OSRdyTbl := .empty 8, OSTCBPrioTbl := fun _ => none, OSTCBList := [],
        OSEventTbl := fun e => ⟨.empty 8, objects e⟩, pendSV := false } q :=
    fun q => ⟨PrioSet.not_mem_empty q, fun _ => PrioSet.not_mem_empty q⟩
  exact (Built.mk (task_create hempty OS_TASK_IDLE_PRIO) (fun _ => PrioSet.not_mem_empty) rfl
    rfl).create OS_TASK_STAT_PRIO

/-- The state in which multitasking starts is in order. -/
theorem ok_boot (objects : Ev → Object) (prios : List Prio) : Ok (boot objects prios) := by
  have hbuilt : Built (prios.foldl (fun k p => (k.OSTaskCreate p).2) (OSInit objects)) := by
    have hfold : ∀ k, Built k → Built (prios.foldl (fun k p => (k.OSTaskCreate p).2) k) := by
      induction prios with
      | nil => exact fun k h => h
      | cons p ps ih => exact fun k h => ih _ (h.create p)
    exact hfold _ (built_OSInit objects)
  rw [boot]
  generalize prios.foldl (fun k p => (k.OSTaskCreate p).2) (OSInit objects) = k at hbuilt
  have hidle : OS_TASK_IDLE_PRIO ∈ k.OSRdyTbl :=
    ((hbuilt.task _).of_some hbuilt.idle).1.mpr ⟨rfl, rfl⟩
  have hleast := PrioSet.isLeast_least isUnMap_unMap (PrioSet.grp_ne_zero hidle)
  obtain ⟨t, ht⟩ := (hbuilt.task _).exists_of_ready hleast.1
  refine ⟨fun q => (hbuilt.task q).congr rfl Iff.rfl (fun _ => Iff.rfl) fun _ => rfl,
    fun e _ => hbuilt.nobody e, ⟨t, ht⟩, hbuilt.idle, fun _ => hbuilt.lock, fun _ _ => hleast,
    fun _ pc hat => ?_, fun hne => absurd hbuilt.lock hne⟩
  exact fun _ => hleast

/-- **The invariant holds in every state of every run.** -/
theorem ok_of_run {k' : Kernel} {evs : List Event} (h : Ok k) (hrun : run step k evs = some k') :
    Ok k' :=
  run_invariant (fun _ _ _ => ok_step) h hrun

end Steps

/-! ## Examples of runs -/

/-- Event 0 is a queue for two messages, the others are semaphores at one. -/
def oneQueue (e : Ev) : Object := if e = 0 then .queue (.create (fun _ => 0) 2) else .sem 1

/-- Task 5 waits on the queue, and task 6 posts to it. -/
def handOver : List Event :=
  [.OS_CPU_PendSVHandler, .OSQPend 0 10, .OS_Sched (some 0), .OS_CPU_PendSVHandler, .OSQPost 0 77,
    .OS_Sched none, .OS_CPU_PendSVHandler]

/-- Task 5 takes the mutex; task 6 runs while task 5 sleeps, and waits for it. -/
def contention : List Event :=
  [.OS_CPU_PendSVHandler, .OSSemPend 1 0, .OSTimeDly 3, .OS_Sched none, .OS_CPU_PendSVHandler,
    .OSSemPend 1 0, .OS_Sched (some 1), .OS_CPU_PendSVHandler]

/-- Task 5 fills the queue. -/
def filling : List Event := [.OS_CPU_PendSVHandler, .OSQPost 0 1, .OSQPost 0 2]

/-- The kernel behind events that can happen. -/
def behind (objects : Ev → Object) (prios : List Prio) (evs : List Event) : Kernel :=
  (run step (boot objects prios) evs).getD (boot objects prios)

theorem run_behind {objects : Ev → Object} {prios : List Prio} {evs : List Event}
    (h : (run step (boot objects prios) evs).isSome = true) :
    run step (boot objects prios) evs = some (behind objects prios evs) := by
  rw [behind, Option.getD_of_ne_none (Option.isSome_iff_ne_none.mp h)]

/-! ## What holds in every run -/

/-- **The scheduler keeps its promise.**  In every run of the kernel, whatever its tasks and
interrupts do: a task that runs code of its own, or ends a pend, while the scheduler is not locked
is neither waiting nor delayed nor suspended, and it is the most urgent of all such tasks. -/
theorem run_most_urgent {objects : Ev → Object} {prios : List Prio} {evs : List Event}
    {k : Kernel} (hrun : run step (boot objects prios) evs = some k)
    (hlock : k.OSLockNesting = 0) {pc : Pc} (hat : k.runsAt pc = true)
    (hpc : pc = .code ∨ ∃ e, pc = .pendWake e) :
    (∃ t, k.OSTCBPrioTbl k.OSPrioCur = some t ∧ t.OSTCBStat = OS_STAT_RDY ∧ t.OSTCBDly = 0) ∧
      ∀ p t, k.OSTCBPrioTbl p = some t → t.OSTCBStat = OS_STAT_RDY → t.OSTCBDly = 0 →
        k.OSPrioCur ≤ p := by
  have hok := ok_of_run (ok_boot objects prios) hrun
  obtain ⟨t, ht, -, -, hstat, hdly, -⟩ := hok.ready_of_runs hlock hat hpc
  refine ⟨⟨t, ht, hstat, hdly⟩, fun p t' ht' hstat' hdly' => ?_⟩
  have hready : p ∈ k.OSRdyTbl := ((hok.task p).of_some ht').1.mpr ⟨hstat', hdly'⟩
  exact (hok.sched.running hlock pc hat hpc).2 hready

/-- Task 5 goes on with the message, though task 6 is ready, too. -/
theorem run_most_urgent_handOver :
    (∃ t, (behind oneQueue [5, 6] handOver).OSTCBPrioTbl
        (behind oneQueue [5, 6] handOver).OSPrioCur = some t ∧
      t.OSTCBStat = OS_STAT_RDY ∧ t.OSTCBDly = 0) ∧
      ∀ p t, (behind oneQueue [5, 6] handOver).OSTCBPrioTbl p = some t →
        t.OSTCBStat = OS_STAT_RDY → t.OSTCBDly = 0 →
        (behind oneQueue [5, 6] handOver).OSPrioCur ≤ p :=
  run_most_urgent (run_behind (by decide +kernel)) (by decide +kernel)
    (show runsAt _ (.pendWake 0) = true by decide +kernel) (.inr ⟨0, rfl⟩)

/-- **No wake-up is lost.**  In every state of every run a task is on the wait list of an event
exactly while it is in a pend on it that has not been handed a message, and while anybody is on
the list the queue is empty, or the semaphore at zero. -/
theorem run_waiting {objects : Ev → Object} {prios : List Prio} {evs : List Event} {k : Kernel}
    (hrun : run step (boot objects prios) evs = some k) (e : Ev) (p : Prio) :
    (p ∈ k.waiting e ↔ ∃ t, k.OSTCBPrioTbl p = some t ∧
      (t.OSTCBStkPtr = .pendSched e ∨ t.OSTCBStkPtr = .pendWake e) ∧
      (t.OSTCBStat = k.kind e ∨ t.OSTCBStatPend = .OS_STAT_PEND_TO)) ∧
    (p ∈ k.waiting e → (k.OSEventTbl e).object.contents = []) := by
  have hok := ok_of_run (ok_boot objects prios) hrun
  refine ⟨⟨fun hp => ?_, ?_⟩, fun hp => ?_⟩
  · obtain ⟨t, ht, hpc, hin⟩ := (hok.task p).inPend_of_waiting hp
    refine ⟨t, ht, hpc, ?_⟩
    cases hin with
    | waits hstat => exact .inl hstat
    | timedOut _ _ hpend => exact .inr hpend
    | handed _ _ _ hw => exact absurd hp hw
  · rintro ⟨t, ht, hpc, hopen⟩
    have hat := ((hok.task p).of_some ht).2
    have hin : InPend k e p t := by
      rcases hpc with hpc | hpc <;> rw [hpc] at hat <;> exact hat.2
    cases hin with
    | waits _ _ hw => exact hw
    | timedOut _ _ _ hw => exact hw
    | handed hstat _ hpend _ =>
        rcases hopen with hkind | hto
        · exact absurd (hkind.symm.trans hstat) (kind_ne_rdy k e)
        · rw [hpend] at hto
          cases hto
  · by_contra hne
    exact hok.store e hne p hp

/-- Task 5 waits until task 6 posts. -/
theorem run_waiting_handOver :
    (5 ∈ (behind oneQueue [5, 6] (handOver.take 4)).waiting 0 ↔
      ∃ t, (behind oneQueue [5, 6] (handOver.take 4)).OSTCBPrioTbl 5 = some t ∧
        (t.OSTCBStkPtr = .pendSched 0 ∨ t.OSTCBStkPtr = .pendWake 0) ∧
        (t.OSTCBStat = (behind oneQueue [5, 6] (handOver.take 4)).kind 0 ∨
          t.OSTCBStatPend = .OS_STAT_PEND_TO)) ∧
    (5 ∈ (behind oneQueue [5, 6] (handOver.take 4)).waiting 0 →
      ((behind oneQueue [5, 6] (handOver.take 4)).OSEventTbl 0).object.contents = []) :=
  run_waiting (run_behind (by decide +kernel)) 0 5

end Kernel

end NetCamera.Rtos
