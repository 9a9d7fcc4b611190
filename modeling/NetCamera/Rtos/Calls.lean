import NetCamera.Rtos.Invariant

/-!
# NetCamera.Rtos.Calls

What a single service does to a kernel that satisfies the invariant: to the task that calls it, to
the objects, and to the processor (`Call`).
-/

namespace NetCamera.Rtos

namespace Object

theorem stat_of_take {o o' : Object} {m : Msg} (h : o.take = some (m, o')) : o'.stat = o.stat := by
  cases o with
  | queue pq =>
      rw [take] at h
      split at h
      · obtain ⟨-, rfl⟩ := Prod.mk.inj (Option.some.inj h)
        rfl
      · cases h
  | sem c =>
      rw [take] at h
      split at h
      · obtain ⟨-, rfl⟩ := Prod.mk.inj (Option.some.inj h)
        rfl
      · cases h

/-- What is taken is the oldest of the contents. -/
theorem contents_of_take {o o' : Object} {m : Msg} (h : o.take = some (m, o')) :
    o.contents = m :: o'.contents := by
  cases o with
  | queue pq =>
      rw [take] at h
      split at h
      · next hpos =>
          obtain ⟨rfl, rfl⟩ := Prod.mk.inj (Option.some.inj h)
          exact pq.contents_take hpos
      · cases h
  | sem c =>
      rw [take] at h
      split at h
      · next hpos =>
          obtain ⟨rfl, rfl⟩ := Prod.mk.inj (Option.some.inj h)
          have hc : c.toNat = (c - 1).toNat + 1 := by
            have hle : (1 : UInt16) ≤ c := by
              rw [UInt16.le_iff_toNat_le]
              exact UInt16.lt_iff_toNat_lt.mp hpos
            have hsub := UInt16.toNat_sub_of_le c 1 hle
            have hone : (1 : UInt16).toNat = 1 := rfl
            have hposN := UInt16.lt_iff_toNat_lt.mp hpos
            have hzero : (0 : UInt16).toNat = 0 := rfl
            omega
          rw [contents, contents, hc, List.replicate_succ]
      · cases h

theorem contents_of_take_none {o : Object} (h : o.take = none) : o.contents = [] := by
  cases o with
  | queue pq =>
      rw [take] at h
      split at h
      · cases h
      · next hpos =>
          rw [contents, ← List.length_eq_zero_iff, pq.length_contents]
          omega
  | sem c =>
      rw [take] at h
      split at h
      · cases h
      · next hpos =>
          have hc : c.toNat = 0 := by
            rw [UInt16.lt_iff_toNat_lt] at hpos
            exact Nat.eq_zero_of_not_pos hpos
          rw [contents, hc, List.replicate_zero]

theorem stat_of_put {o o' : Object} {m : Msg} (h : o.put m = some o') : o'.stat = o.stat := by
  cases o with
  | queue pq =>
      rw [put] at h
      split at h
      · obtain rfl := Option.some.inj h
        rfl
      · cases h
  | sem c =>
      rw [put] at h
      split at h
      · obtain rfl := Option.some.inj h
        rfl
      · cases h

/-- A put appends; a semaphore is given null messages only. -/
theorem contents_of_put {o o' : Object} {m : Msg} (h : o.put m = some o')
    (hm : o.isQueue = true ∨ m = 0) : o'.contents = o.contents ++ [m] := by
  cases o with
  | queue pq =>
      rw [put] at h
      split at h
      · next hlt =>
          obtain rfl := Option.some.inj h
          exact pq.contents_put m hlt
      · cases h
  | sem c =>
      obtain rfl := hm.resolve_left Bool.false_ne_true
      rw [put] at h
      split at h
      · next hlt =>
          obtain rfl := Option.some.inj h
          have hc : (c + 1).toNat = c.toNat + 1 := by
            have hltN := UInt16.lt_iff_toNat_lt.mp hlt
            have hmax : (65535 : UInt16).toNat = 65535 := rfl
            rw [UInt16.toNat_add, show (1 : UInt16).toNat = 1 from rfl]
            omega
          rw [contents, contents, hc, List.replicate_succ']
      · cases h

end Object

namespace Kernel

theorem eq_zero_of_not_pos {n : UInt8} (h : ¬ 0 < n) : n = 0 := by
  rw [UInt8.lt_iff_toNat_lt] at h
  exact UInt8.toNat_inj.mp (Nat.eq_zero_of_not_pos h)

/-- A count below its maximum goes up. -/
theorem succ_ne_zero {n : UInt8} (h : n < 255) : n + 1 ≠ 0 := by
  intro hzero
  have hlt := UInt8.lt_iff_toNat_lt.mp h
  have hadd := congrArg UInt8.toNat hzero
  have hmax : (255 : UInt8).toNat = 255 := rfl
  rw [UInt8.toNat_add, show (1 : UInt8).toNat = 1 from rfl,
    show (0 : UInt8).toNat = 0 from rfl] at hadd
  omega

theorem rdy_or (s : BitVec 8) : OS_STAT_RDY ||| s = s := BitVec.zero_or

/-! ## What a call does to the running task -/

section Calls

variable {k : Kernel} {e : Ev}

/-- A task that runs while the scheduler is not locked is ready. -/
theorem Ok.ready_of_runs (h : Ok k) (hlock : k.OSLockNesting = 0) {pc : Pc}
    (hrun : k.runsAt pc = true) (hpc : pc = .code ∨ ∃ e, pc = .pendWake e) :
    ∃ t, k.OSTCBPrioTbl k.OSPrioCur = some t ∧ t.OSTCBStkPtr = pc ∧
      k.OSPrioCur ∈ k.OSRdyTbl ∧ t.OSTCBStat = OS_STAT_RDY ∧ t.OSTCBDly = 0 ∧
      AtPc k k.OSPrioCur t pc := by
  obtain ⟨-, -, t, ht, hat⟩ := runsAt_iff.mp hrun
  have hmem : k.OSPrioCur ∈ k.OSRdyTbl := (h.sched.running hlock pc hrun hpc).1
  obtain ⟨hrdy, hpc'⟩ := (h.task _).of_some ht
  obtain ⟨hstat, hdly⟩ := hrdy.mp hmem
  exact ⟨t, ht, hat, hmem, hstat, hdly, hat ▸ hpc'⟩

/-- Nobody is in a pend while the scheduler is locked. -/
theorem Ok.unlocked_of_wake (h : Ok k) (hrun : k.runsAt (.pendWake e) = true) :
    k.OSLockNesting = 0 := by
  by_contra hne
  obtain ⟨-, -, t, ht, hat⟩ := runsAt_iff.mp hrun
  rcases h.sched.locked hne t ht with hc | hc <;> rw [hat] at hc <;> cases hc

/-- A task in code of its own. -/
theorem Ok.at_code (h : Ok k) (hrun : k.runsAt .code = true) :
    ∃ t, k.OSTCBPrioTbl k.OSPrioCur = some t ∧ t.OSTCBStkPtr = .code ∧
      (k.OSPrioCur ∈ k.OSRdyTbl ↔ t.OSTCBStat = OS_STAT_RDY ∧ t.OSTCBDly = 0) ∧
      AtPc k k.OSPrioCur t .code := by
  obtain ⟨-, -, t, ht, hat⟩ := runsAt_iff.mp hrun
  obtain ⟨hrdy, hpc⟩ := (h.task _).of_some ht
  exact ⟨t, ht, hat, hrdy, hat ▸ hpc⟩

/-- The wait lists stay while an object changes. -/
theorem waiting_setObject (k : Kernel) (e : Ev) (object : Object) (e' : Ev) :
    (k.setEvent e { k.OSEventTbl e with object }).waiting e' = k.waiting e' := by
  rw [waiting_setEvent]
  split
  · next he => rw [he, waiting]
  · rfl

/-- An object may change while its kind stays. -/
theorem task_setObject (h : ∀ q, TaskOk k q) {object : Object}
    (hstat : object.stat = (k.OSEventTbl e).object.stat) (q : Prio) :
    TaskOk (k.setEvent e { k.OSEventTbl e with object }) q := by
  refine (h q).congr rfl Iff.rfl (fun e' => by rw [waiting_setObject]) fun e' => ?_
  rw [kind_setEvent]
  split
  · next he => rw [he, kind, hstat]
  · rfl

/-- The kernel with the running task waiting. -/
def blocked (k : Kernel) (e : Ev) (t : OS_TCB) (timeout : UInt32) : Kernel :=
  (k.setTcb k.OSPrioCur
    { t with
      OSTCBStat := t.OSTCBStat ||| k.kind e
      OSTCBStatPend := .OS_STAT_PEND_OK
      OSTCBDly := timeout }).OS_EventTaskWait e

/-- A pend of a task is refused while the scheduler is locked, takes what the object holds, or
waits. -/
theorem pend_cases {t : OS_TCB} (hnest : k.OSIntNesting = 0)
    (ht : k.OSTCBPrioTbl k.OSPrioCur = some t) (e : Ev) (timeout : UInt32) :
    (k.OSLockNesting ≠ 0 ∧ k.pend e timeout = .returns 0 .OS_ERR_PEND_LOCKED k) ∨
    k.OSLockNesting = 0 ∧
      ((∃ m object, (k.OSEventTbl e).object.take = some (m, object) ∧
        k.pend e timeout =
          .returns m .OS_ERR_NONE (k.setEvent e { k.OSEventTbl e with object })) ∨
      ((k.OSEventTbl e).object.take = none ∧
        k.pend e timeout = .waits (k.blocked e t timeout))) := by
  rw [pend, hnest, if_neg (by decide)]
  split
  · next hlock => exact .inl ⟨UInt8.pos_iff_ne_zero.mp hlock, rfl⟩
  · next hlock =>
      refine .inr ⟨eq_zero_of_not_pos hlock, ?_⟩
      cases htake : (k.OSEventTbl e).object.take with
      | some r => exact .inl ⟨r.1, r.2, rfl, rfl⟩
      | none =>
          rw [OSTCBCur, ht]
          exact .inr ⟨rfl, rfl⟩

theorem mem_waiting_blocked {t : OS_TCB} {timeout : UInt32} {q : Prio} (e e' : Ev) :
    q ∈ (k.blocked e t timeout).waiting e' ↔ (e' = e ∧ q = k.OSPrioCur) ∨ q ∈ k.waiting e' := by
  show q ∈ (setEvent _ e _).waiting e' ↔ _
  rw [waiting_setEvent]
  split
  · next he =>
      rw [he, PrioSet.mem_insert]
      exact or_congr_left (and_iff_right rfl).symm
  · next he => exact (or_iff_right fun h => he h.1).symm

theorem kind_blocked {t : OS_TCB} {timeout : UInt32} (e e' : Ev) :
    (k.blocked e t timeout).kind e' = k.kind e' := by
  show (setEvent _ e _).kind e' = _
  rw [kind_setEvent]
  split
  · next he => rw [he]; rfl
  · rfl

theorem object_blocked {t : OS_TCB} {timeout : UInt32} (e e' : Ev) :
    ((k.blocked e t timeout).OSEventTbl e').object = (k.OSEventTbl e').object := by
  show ((setEvent _ e _).OSEventTbl e').object = _
  rw [eventTbl_setEvent]
  split
  · next he => rw [he]; rfl
  · rfl

/-- The task that begins to wait leaves the ready list and enters the wait list. -/
theorem task_blocked (h : Ok k) {t : OS_TCB} (hstat : t.OSTCBStat = OS_STAT_RDY)
    (hno : ∀ e, k.OSPrioCur ∉ k.waiting e) (timeout : UInt32) (q : Prio) :
    TaskOk ((k.blocked e t timeout).goOn (.pendSched e)) q := by
  refine task_goOn (fun q hq => ?_) (Function.update_self ..) ?_ ?_ q
  · refine (h.task q).congr (Function.update_of_ne hq _ _) ?_ (fun e' => ?_) (kind_blocked e)
    · show q ∈ k.OSRdyTbl.remove k.OSPrioCur ↔ _
      rw [PrioSet.mem_remove]
      exact and_iff_right hq
    · rw [mem_waiting_blocked]
      exact or_iff_right fun h => hq h.2
  · refine iff_of_false (fun hmem => (PrioSet.mem_remove.mp hmem).1 rfl) fun hr =>
      kind_ne_rdy k e ?_
    have hor : t.OSTCBStat ||| k.kind e = OS_STAT_RDY := hr.1
    rwa [hstat, rdy_or] at hor
  · refine ⟨fun e' he hmem => ?_, .waits ?_ rfl ?_⟩
    · exact hno e' (((mem_waiting_blocked e e').mp hmem).resolve_left fun h => he h.1)
    · rw [kind_blocked]
      show t.OSTCBStat ||| k.kind e = _
      rw [hstat, rdy_or]
    · exact (mem_waiting_blocked e e).mpr (.inl ⟨rfl, rfl⟩)

/-- A delay or a suspension takes the running task off the ready list. -/
theorem task_block (h : Ok k) {t : OS_TCB} (hrun : k.runsAt .code = true)
    (hstat : t.OSTCBStat = OS_STAT_RDY ∨ t.OSTCBStat = OS_STAT_SUSPEND)
    (hblock : ¬(t.OSTCBStat = OS_STAT_RDY ∧ t.OSTCBDly = 0)) (q : Prio) :
    TaskOk (({ k with OSRdyTbl := k.OSRdyTbl.remove k.OSPrioCur }.setTcb k.OSPrioCur t).goOn
      .sched) q := by
  obtain ⟨_, _, _, _, -, hno⟩ := h.at_code hrun
  refine task_goOn (fun q hq => ?_) (Function.update_self ..) ?_ ?_ q
  · refine (h.task q).congr (Function.update_of_ne hq _ _) ?_ (fun _ => Iff.rfl) fun _ => rfl
    show q ∈ k.OSRdyTbl.remove k.OSPrioCur ↔ _
    rw [PrioSet.mem_remove]
    exact and_iff_right hq
  · exact iff_of_false (fun hmem => (PrioSet.mem_remove.mp hmem).1 rfl) hblock
  · exact ⟨hstat, hno⟩

/-- The running task goes on in its own code or at the `OS_Sched` of a service. -/
theorem task_goOnAt {k' : Kernel} (h : ∀ q, TaskOk k' q) {t : OS_TCB}
    (ht : k'.OSTCBPrioTbl k'.OSPrioCur = some t) (hat : t.OSTCBStkPtr = .code) (sched : Bool)
    (q : Prio) : TaskOk (k'.goOnAt sched) q := by
  obtain ⟨hrdy, hpc⟩ := (h _).of_some ht
  rw [hat] at hpc
  rw [goOnAt]
  split
  · exact task_goOn (fun q _ => h q) ht hrdy (show AtPc k' _ t .sched from hpc) q
  · exact task_goOn (fun q _ => h q) ht hrdy hpc q

/-- The control block of a task whose pend has ended. -/
def ended (t : OS_TCB) : OS_TCB :=
  { t with
    OSTCBStat := OS_STAT_RDY
    OSTCBStatPend := .OS_STAT_PEND_OK
    OSTCBMsg := 0 }

/-- A pend ends with the message that was handed over, or with nothing when the time was up. -/
theorem pendEnd_cases (h : Ok k) (hrun : k.runsAt (.pendWake e) = true) :
    ∃ t, k.OSTCBPrioTbl k.OSPrioCur = some t ∧ t.OSTCBStkPtr = .pendWake e ∧
      k.OSPrioCur ∈ k.OSRdyTbl ∧ t.OSTCBStat = OS_STAT_RDY ∧ t.OSTCBDly = 0 ∧
      (∀ e', e' ≠ e → k.OSPrioCur ∉ k.waiting e') ∧
      (t.OSTCBStatPend = .OS_STAT_PEND_OK ∧ k.OSPrioCur ∉ k.waiting e ∧
        k.pendEnd e = some (t.OSTCBMsg, .OS_ERR_NONE, k.setTcb k.OSPrioCur (ended t)) ∨
      t.OSTCBStatPend = .OS_STAT_PEND_TO ∧ k.OSPrioCur ∈ k.waiting e ∧
        k.pendEnd e = some (0, .OS_ERR_TIMEOUT,
          (k.OS_EventTaskRemove k.OSPrioCur e).setTcb k.OSPrioCur (ended t))) := by
  obtain ⟨t, ht, hat, hmem, hstat, hdly, hothers, hin⟩ :=
    h.ready_of_runs (h.unlocked_of_wake hrun) hrun (.inr ⟨e, rfl⟩)
  refine ⟨t, ht, hat, hmem, hstat, hdly, hothers, ?_⟩
  rw [pendEnd, OSTCBCur, ht, Option.map_some]
  cases hin with
  | waits hkind => exact absurd (hkind.symm.trans hstat) (kind_ne_rdy k e)
  | handed _ _ hpend hw =>
      simp only [hpend]
      exact .inl ⟨trivial, hw, rfl⟩
  | timedOut _ _ hpend hw =>
      simp only [hpend]
      exact .inr ⟨trivial, hw, rfl⟩

/-- The end of a pend leaves the tasks in order. -/
theorem task_pendEnd (h : Ok k) (hrun : k.runsAt (.pendWake e) = true)
    {r : Msg × OsErr × Kernel} (hr : k.pendEnd e = some r) (q : Prio) :
    TaskOk (r.2.2.goOn .code) q := by
  obtain ⟨t, -, -, hmem, -, hdly, hothers, ⟨-, hw, hend⟩ | ⟨-, -, hend⟩⟩ := pendEnd_cases h hrun
  · obtain rfl := Option.some.inj (hr.symm.trans hend)
    refine task_goOn (fun q hq => ?_) (Function.update_self ..) ?_ ?_ q
    · exact (h.task q).congr (Function.update_of_ne hq _ _) Iff.rfl (fun _ => Iff.rfl)
        fun _ => rfl
    · exact iff_of_true hmem ⟨rfl, hdly⟩
    · refine ⟨.inl rfl, fun e' => ?_⟩
      by_cases he : e' = e
      · exact he ▸ hw
      · exact hothers e' he
  · obtain rfl := Option.some.inj (hr.symm.trans hend)
    refine task_goOn (fun q hq => ?_) (Function.update_self ..) ?_ ?_ q
    · refine (h.task q).congr (Function.update_of_ne hq _ _) Iff.rfl (fun e' => ?_) fun e' => ?_
      · show q ∈ (k.OS_EventTaskRemove k.OSPrioCur e).waiting e' ↔ _
        rw [mem_waiting_remove]
        exact and_iff_right fun _ => hq
      · exact kind_remove k k.OSPrioCur e e'
    · exact iff_of_true hmem ⟨rfl, hdly⟩
    · refine ⟨.inl rfl, fun e' hmem' => ?_⟩
      have hmem'' : k.OSPrioCur ∈ (k.OS_EventTaskRemove k.OSPrioCur e).waiting e' := hmem'
      rw [mem_waiting_remove] at hmem''
      by_cases he : e' = e
      · exact hmem''.1 he rfl
      · exact hothers e' he hmem''.2

/-- A task that is created is in order. -/
theorem task_create (h : ∀ q, TaskOk k q) (prio q : Prio) : TaskOk (k.OSTaskCreate prio).2 q := by
  rw [OSTaskCreate]
  split
  · next hnone =>
      have hold := h prio
      rw [TaskOk, Option.isNone_iff_eq_none.mp hnone] at hold
      rw [OS_TCBInit]
      split
      · next k' hk' =>
          split at hk'
          · obtain rfl := Option.some.inj hk'
            refine task_setTcb (k := { k with OSTCBList := prio :: k.OSTCBList })
              (s := k.OSRdyTbl.insert prio) (fun q => ?_) (fun q hq => ?_) ?_ ?_ q
            · exact (h q).congr rfl Iff.rfl (fun _ => Iff.rfl) fun _ => rfl
            · rw [PrioSet.mem_insert]
              exact or_iff_right hq
            · exact iff_of_true (PrioSet.mem_insert.mpr (.inl rfl)) ⟨rfl, rfl⟩
            · exact ⟨.inl rfl, hold.2⟩
          · cases hk'
      · exact h q
  · exact h q

/-! ## What a call does to the objects -/

theorem StoreOk.congr {k k' : Kernel} {e : Ev} (h : StoreOk k e)
    (hobj : (k'.OSEventTbl e).object = (k.OSEventTbl e).object)
    (hwait : ∀ p, p ∈ k'.waiting e → p ∈ k.waiting e) : StoreOk k' e := by
  intro hne p hp
  rw [hobj] at hne
  exact h hne p (hwait p hp)

theorem object_setEvent (k : Kernel) (e e' : Ev) (v : OS_EVENT) :
    ((k.setEvent e v).OSEventTbl e').object =
      if e' = e then v.object else (k.OSEventTbl e').object := by
  rw [eventTbl_setEvent]
  split <;> rfl

@[simp] theorem object_remove (k : Kernel) (p : Prio) (e e' : Ev) :
    ((k.OS_EventTaskRemove p e).OSEventTbl e').object = (k.OSEventTbl e').object := by
  rw [OS_EventTaskRemove, object_setEvent]
  split
  · next h => rw [h]
  · rfl

/-- An object that nobody waits for may hold anything. -/
theorem store_setObject (h : ∀ e, StoreOk k e) {object : Object}
    (hnone : object.contents ≠ [] → ∀ p, p ∉ k.waiting e) (e' : Ev) :
    StoreOk (k.setEvent e { k.OSEventTbl e with object }) e' := by
  by_cases he : e' = e
  · subst he
    intro hne p hp
    rw [object_setEvent, if_pos rfl] at hne
    rw [waiting_setEvent, if_pos rfl] at hp
    exact hnone hne p hp
  · refine (h e').congr ?_ fun p hp => ?_
    · rw [object_setEvent, if_neg he]
    · rwa [waiting_setEvent, if_neg he] at hp

theorem store_woken (h : ∀ e, StoreOk k e) (e : Ev) (p : Prio) (t : OS_TCB) (e' : Ev) :
    StoreOk (k.woken e p t) e' := by
  refine (h e').congr (object_remove ..) fun q hq => ?_
  rw [woken, mem_waiting_remove] at hq
  exact hq.2

theorem makeReady_eq (k : Kernel) (p : Prio) (t : OS_TCB) :
    ∃ s, k.makeReady p t = { k with OSRdyTbl := s } := by
  rw [makeReady]
  split
  · exact ⟨_, rfl⟩
  · exact ⟨k.OSRdyTbl, rfl⟩

/-- What the tick can change at one control block. -/
theorem tickTcb_eq (k : Kernel) (p : Prio) : k.tickTcb p = k ∨
    ∃ t t' s, k.OSTCBPrioTbl p = some t ∧ t.OSTCBDly ≠ 0 ∧ t'.OSTCBStkPtr = t.OSTCBStkPtr ∧
      (t'.OSTCBStat = t.OSTCBStat ∨ t'.OSTCBStatPend = .OS_STAT_PEND_TO) ∧
      k.tickTcb p = { k.setTcb p t' with OSRdyTbl := s } := by
  rw [tickTcb]
  split
  · exact .inl rfl
  · next t ht =>
      dsimp only
      split
      · next hdly =>
          split
          · obtain ⟨s, hs⟩ := makeReady_eq (k.setTcb p _) p _
            refine .inr ⟨t, _, s, ht, hdly, by split <;> rfl, ?_, hs⟩
            split
            · exact .inr rfl
            · exact .inl rfl
          · exact .inr ⟨t, { t with OSTCBDly := t.OSTCBDly - 1 }, k.OSRdyTbl, ht, hdly, rfl,
              .inl rfl, rfl⟩
      · exact .inl rfl

/-- An interrupt that begins is counted. -/
theorem OSIntEnter_eq (k : Kernel) : ∃ n, k.OSIntEnter = { k with OSIntNesting := n } := by
  rw [OSIntEnter]
  split
  · exact ⟨_, rfl⟩
  · exact ⟨k.OSIntNesting, rfl⟩

/-- A lock is counted, too, -/
theorem OSSchedLock_eq (k : Kernel) : ∃ n, k.OSSchedLock = { k with OSLockNesting := n } := by
  rw [OSSchedLock]
  split
  · split
    · exact ⟨_, rfl⟩
    · exact ⟨k.OSLockNesting, rfl⟩
  · exact ⟨k.OSLockNesting, rfl⟩

/-- and so is its end. -/
theorem OSSchedUnlock_eq (k : Kernel) :
    ∃ n sched, k.OSSchedUnlock = ({ k with OSLockNesting := n }, sched) := by
  rw [OSSchedUnlock]
  split
  · split
    · exact ⟨_, _, rfl⟩
    · exact ⟨k.OSLockNesting, _, rfl⟩
  · exact ⟨k.OSLockNesting, _, rfl⟩

/-- A delay is none, or takes the running task off the ready list. -/
theorem OSTimeDly_eq {t : OS_TCB} (ht : k.OSTCBPrioTbl k.OSPrioCur = some t) (ticks : UInt32) :
    k.OSTimeDly ticks = (k, false) ∨
      k.OSTimeDly ticks = ({ k with OSRdyTbl := k.OSRdyTbl.remove k.OSPrioCur }.setTcb k.OSPrioCur
        { t with OSTCBDly := ticks }, true) := by
  rw [OSTimeDly, OSTCBCur, ht]
  split
  · exact .inl rfl
  · split
    · exact .inl rfl
    · split
      · exact .inr rfl
      · exact .inl rfl

/-- What the creation of a task can change. -/
theorem create_eq (k : Kernel) (prio : Prio) : (k.OSTaskCreate prio).2 = k ∨
    k.OSTCBPrioTbl prio = none ∧ ∃ t l s, t.OSTCBStkPtr = .code ∧
      (k.OSTaskCreate prio).2 = { k.setTcb prio t with OSTCBList := l, OSRdyTbl := s } := by
  rw [OSTaskCreate]
  split
  · next hnone =>
      rw [OS_TCBInit]
      split
      · next hk' =>
          split at hk'
          · obtain rfl := Option.some.inj hk'
            exact .inr ⟨Option.isNone_iff_eq_none.mp hnone, _, _, _, rfl, rfl⟩
          · cases hk'
      · exact .inl rfl
  · exact .inl rfl

/-! ## What a call does to the processor -/

/-- The part of `SchedOk` that does not depend on whether a switch was asked for. -/
structure Half (k : Kernel) : Prop where
  cur : ∃ t, k.OSTCBPrioTbl k.OSPrioCur = some t
  idle : k.OSTCBPrioTbl OS_TASK_IDLE_PRIO = some ⟨OS_STAT_RDY, .OS_STAT_PEND_OK, 0, 0, .code⟩
  pendSV_unlocked : k.pendSV = true → k.OSLockNesting = 0
  locked : k.OSLockNesting ≠ 0 → ∀ t, k.OSTCBPrioTbl k.OSPrioCur = some t →
    t.OSTCBStkPtr = .code ∨ t.OSTCBStkPtr = .sched

theorem SchedOk.half (h : SchedOk k) : Half k := ⟨h.cur, h.idle, h.pendSV_unlocked, h.locked⟩

/-- The control variables of the scheduler are the same. -/
structure SameCtl (k k' : Kernel) : Prop where
  nest : k'.OSIntNesting = k.OSIntNesting
  lock : k'.OSLockNesting = k.OSLockNesting
  cur : k'.OSPrioCur = k.OSPrioCur
  pendSV : k'.pendSV = k.pendSV

/-- The idle task is ready at all times, so that there is always a task to run. -/
theorem Half.rdy_ne (h : Half k) (htask : ∀ q, TaskOk k q) : k.OSRdyTbl.grp ≠ 0 :=
  PrioSet.grp_ne_zero (((htask _).of_some h.idle).1.mpr ⟨rfl, rfl⟩)

/-- A state is in order while an interrupt runs, while the task is at a call of `OS_Sched`, while
the scheduler is locked, or when the task is the most urgent one. -/
theorem Half.schedOk (h : Half k)
    (hrun : k.OSIntNesting ≠ 0 ∨ (k.pendSV = false ∧ (k.OSLockNesting ≠ 0 ∨
      (∃ t, k.OSTCBPrioTbl k.OSPrioCur = some t ∧
        (t.OSTCBStkPtr = .sched ∨ ∃ e, t.OSTCBStkPtr = .pendSched e)) ∨
      IsLeast {p | p ∈ k.OSRdyTbl} k.OSPrioCur))) : SchedOk k := by
  refine ⟨h.cur, h.idle, h.pendSV_unlocked, fun hnest hsv => ?_, fun hlock pc hat hpc => ?_,
    h.locked⟩
  · rcases hrun with hn | ⟨hoff, -⟩
    · exact absurd hnest hn
    · rw [hoff] at hsv
      cases hsv
  · obtain ⟨hnest, -, t, ht, htpc⟩ := runsAt_iff.mp hat
    rcases hrun with hn | ⟨-, hl | ⟨t', ht', hsched⟩ | hleast⟩
    · exact absurd hnest hn
    · exact absurd hlock hl
    · obtain rfl := Option.some.inj (ht.symm.trans ht')
      rcases hsched with hs | ⟨e, hs⟩ <;> rcases hpc with hc | ⟨e', hc⟩ <;>
        cases htpc.symm.trans hs <;> cases hc
    · exact hleast

theorem Half.of_same {k k' : Kernel} (h : Half k) (hs : SameCtl k k')
    (hidle : k'.OSTCBPrioTbl OS_TASK_IDLE_PRIO = k.OSTCBPrioTbl OS_TASK_IDLE_PRIO)
    (hpc : (k'.OSTCBPrioTbl k.OSPrioCur).map (·.OSTCBStkPtr) =
      (k.OSTCBPrioTbl k.OSPrioCur).map (·.OSTCBStkPtr)) : Half k' := by
  obtain ⟨t, ht⟩ := h.cur
  rw [ht, Option.map_some] at hpc
  obtain ⟨t', ht', hat⟩ := Option.map_eq_some_iff.mp hpc
  refine ⟨⟨t', hs.cur ▸ ht'⟩, hidle.trans h.idle, fun hsv => ?_, fun hlock t'' ht'' => ?_⟩
  · exact hs.lock ▸ h.pendSV_unlocked (hs.pendSV ▸ hsv)
  · rw [hs.cur, ht'] at ht''
    obtain rfl := Option.some.inj ht''
    have hold := h.locked (hs.lock ▸ hlock) t ht
    rwa [← hat] at hold

/-- The running task, which is not the idle task, goes on elsewhere. -/
theorem Half.goOn (h : Half k) (hcur : k.OSPrioCur ≠ OS_TASK_IDLE_PRIO) {pc : Pc}
    (hpc : k.OSLockNesting ≠ 0 → pc = .code ∨ pc = .sched) : Half (k.goOn pc) := by
  obtain ⟨t, ht⟩ := h.cur
  have hnew := tcb_goOn_self ht pc
  refine ⟨⟨_, hnew⟩, ?_, h.pendSV_unlocked, fun hlock t' ht' => ?_⟩
  · rw [Kernel.goOn]
    exact (Function.update_of_ne (Ne.symm hcur) _ _).trans h.idle
  · obtain rfl := Option.some.inj (hnew.symm.trans ht')
    exact hpc hlock

/-- The running task goes on in order at a call of `OS_Sched`, while the scheduler is locked, or
as the most urgent one. -/
theorem Half.schedOk_goOn (h : Half k) (hcur : k.OSPrioCur ≠ OS_TASK_IDLE_PRIO)
    (hoff : k.pendSV = false) {pc : Pc} (hpc : k.OSLockNesting ≠ 0 → pc = .code ∨ pc = .sched)
    (hrun : k.OSLockNesting ≠ 0 ∨ pc = .sched ∨ (∃ e, pc = .pendSched e) ∨
      IsLeast {p | p ∈ k.OSRdyTbl} k.OSPrioCur) : SchedOk (k.goOn pc) := by
  obtain ⟨t, ht⟩ := h.cur
  have hnew := tcb_goOn_self ht pc
  refine (h.goOn hcur hpc).schedOk (.inr ⟨hoff, ?_⟩)
  rcases hrun with hlock | hs | he | hleast
  · exact .inl hlock
  · exact .inr (.inl ⟨_, hnew, .inl hs⟩)
  · exact .inr (.inl ⟨_, hnew, .inr he⟩)
  · exact .inr (.inr hleast)

/-- What `OS_Sched` changes. -/
theorem OS_Sched_eq (k : Kernel) :
    ∃ hp sv, k.OS_Sched = { k with OSPrioHighRdy := hp, pendSV := sv } := by
  rw [OS_Sched]
  split
  · split
    · dsimp only
      split
      · exact ⟨_, _, rfl⟩
      · exact ⟨_, k.pendSV, rfl⟩
    · exact ⟨k.OSPrioHighRdy, k.pendSV, rfl⟩
  · exact ⟨k.OSPrioHighRdy, k.pendSV, rfl⟩

/-- **What `OS_Sched` sees to** when it may: the task to run next is the most urgent one that is
ready, and a switch is asked for unless it runs already. -/
theorem OS_Sched_spec (hnest : k.OSIntNesting = 0) (hlock : k.OSLockNesting = 0)
    (hne : k.OSRdyTbl.grp ≠ 0) :
    IsLeast {p | p ∈ k.OSRdyTbl} k.OS_Sched.OSPrioHighRdy ∧
      (k.OS_Sched.pendSV = false → k.OS_Sched.OSPrioHighRdy = k.OSPrioCur) := by
  have hleast := PrioSet.isLeast_least isUnMap_unMap hne
  rw [OS_Sched, if_pos hnest, if_pos hlock]
  dsimp only
  split
  · exact ⟨hleast, fun h => absurd h (by simp)⟩
  · next heq => exact ⟨hleast, fun _ => not_not.mp heq⟩

/-- `OS_Sched` brings the processor in order. -/
theorem Half.schedOk_OS_Sched (h : Half k) (htask : ∀ q, TaskOk k q) : SchedOk k.OS_Sched := by
  obtain ⟨hp, sv, heq⟩ := OS_Sched_eq k
  by_cases hnest : k.OSIntNesting = 0
  · by_cases hlock : k.OSLockNesting = 0
    · obtain ⟨hleast, hcur⟩ := OS_Sched_spec hnest hlock (h.rdy_ne htask)
      rw [heq] at hleast hcur ⊢
      refine ⟨h.cur, h.idle, fun _ => hlock, fun _ _ => hleast, fun _ pc hat _ => ?_,
        fun hne => absurd hlock hne⟩
      exact (hcur (runsAt_iff.mp hat).2.1) ▸ hleast
    · have hsame : k.OS_Sched = k := by rw [OS_Sched, if_pos hnest, if_neg hlock]
      have hoff : k.pendSV = false := Bool.eq_false_iff.mpr (mt h.pendSV_unlocked hlock)
      rw [hsame]
      exact h.schedOk (.inr ⟨hoff, .inl hlock⟩)
  · have hsame : k.OS_Sched = k := by rw [OS_Sched, if_neg hnest]
    rw [hsame]
    exact h.schedOk (.inl hnest)

/-! ## What a post can do -/

/-- A post hands its message to the most urgent task that waits, or nobody waits and it is stored
or refused. -/
theorem post_cases (h : ∀ q, TaskOk k q) (e : Ev) (pmsg : Msg) :
    (∃ p t, k.OSTCBPrioTbl p = some t ∧ IsLeast {q | q ∈ k.waiting e} p ∧
      (t.OSTCBStkPtr = .pendSched e ∨ t.OSTCBStkPtr = .pendWake e) ∧ InPend k e p t ∧
      k.post e pmsg = ⟨k.woken e p (served t pmsg), .OS_ERR_NONE, some p⟩) ∨
    (∀ p, p ∉ k.waiting e) ∧
      ((∃ object, (k.OSEventTbl e).object.put pmsg = some object ∧
        k.post e pmsg = ⟨k.setEvent e { k.OSEventTbl e with object }, .OS_ERR_NONE, none⟩) ∨
      ((k.OSEventTbl e).object.put pmsg = none ∧
        k.post e pmsg = ⟨k, (k.OSEventTbl e).object.full, none⟩)) := by
  rw [post]
  split
  · next hne =>
      obtain ⟨p, t, ht, hleast, hpc, hin, hrdy⟩ := eventTaskRdy_eq h hne pmsg
      have hrdy' : k.OS_EventTaskRdy e pmsg (k.OSEventTbl e).object.stat .OS_STAT_PEND_OK =
        (p, k.woken e p (served t pmsg)) := hrdy
      rw [hrdy']
      exact .inl ⟨p, t, ht, hleast, hpc, hin, rfl⟩
  · next hnone =>
      refine .inr ⟨((k.waiting e).grp_eq_zero_iff).mp (not_not.mp hnone), ?_⟩
      cases hput : (k.OSEventTbl e).object.put pmsg with
      | none => exact .inr ⟨rfl, rfl⟩
      | some object => exact .inl ⟨object, rfl, rfl⟩

/-- A call that leaves every task where it is in its program. -/
structure Call (k k' : Kernel) : Prop where
  task : ∀ q, TaskOk k' q
  store : ∀ e, StoreOk k' e
  ctl : SameCtl k k'
  idle : k'.OSTCBPrioTbl OS_TASK_IDLE_PRIO = k.OSTCBPrioTbl OS_TASK_IDLE_PRIO
  pc : (k'.OSTCBPrioTbl k.OSPrioCur).map (·.OSTCBStkPtr) =
    (k.OSTCBPrioTbl k.OSPrioCur).map (·.OSTCBStkPtr)

theorem Call.refl (h : Ok k) : Call k k := ⟨h.task, h.store, ⟨rfl, rfl, rfl, rfl⟩, rfl, rfl⟩

theorem Call.half {k k' : Kernel} (hc : Call k k') (h : Ok k) : Half k' :=
  h.sched.half.of_same hc.ctl hc.idle hc.pc

/-- A call by an interrupt service routine. -/
theorem Call.ok_of_isr {k k' : Kernel} (hc : Call k k') (h : Ok k) (hnest : k.OSIntNesting ≠ 0) :
    Ok k' :=
  ⟨hc.task, hc.store, (hc.half h).schedOk (.inl (hc.ctl.nest ▸ hnest))⟩

theorem store_goOn (h : ∀ e, StoreOk k e) (pc : Pc) (e : Ev) : StoreOk (k.goOn pc) e :=
  (h e).congr rfl fun _ hp => hp

/-- A call by the running task, which goes on at `OS_Sched` when the call made another one
ready. -/
theorem Call.ok_goOnAt {k k' : Kernel} (hc : Call k k') (h : Ok k) (hmay : k.mayCall = true)
    (sched : Bool) (hrdy : sched = false → ∀ p, p ∈ k'.OSRdyTbl ↔ p ∈ k.OSRdyTbl) :
    Ok (k'.goOnAt sched) := by
  obtain ⟨hrun, hcur⟩ := mayCall_iff.mp hmay
  obtain ⟨-, hoff, t, ht, hat⟩ := runsAt_iff.mp hrun
  have hpc := hc.pc
  rw [ht, Option.map_some, hat] at hpc
  obtain ⟨t', ht', hat'⟩ := Option.map_eq_some_iff.mp hpc
  rw [← hc.ctl.cur] at ht' hcur
  refine ⟨task_goOnAt hc.task ht' hat' sched, store_goOn hc.store _, ?_⟩
  have hoff' : k'.pendSV = false := hc.ctl.pendSV.trans hoff
  cases sched with
  | true =>
      exact (hc.half h).schedOk_goOn hcur hoff' (fun _ => .inr rfl) (.inr (.inl rfl))
  | false =>
      refine (hc.half h).schedOk_goOn hcur hoff' (fun _ => .inl rfl) ?_
      by_cases hlock : k.OSLockNesting = 0
      · have hset : {p | p ∈ k'.OSRdyTbl} = {p | p ∈ k.OSRdyTbl} := Set.ext fun p => hrdy rfl p
        rw [hset, hc.ctl.cur]
        exact .inr (.inr (.inr (h.sched.running hlock .code hrun (.inl rfl))))
      · exact .inl fun hl => hlock (hc.ctl.lock ▸ hl)

/-- The task that a post makes ready is in a pend, so neither the idle task nor one that runs code
of its own. -/
theorem call_woken (h : Ok k) {p : Prio} {t : OS_TCB} (ht : k.OSTCBPrioTbl p = some t)
    (hpc : t.OSTCBStkPtr = .pendSched e ∨ t.OSTCBStkPtr = .pendWake e) (pmsg : Msg) :
    Call k (k.woken e p (served t pmsg)) := by
  refine ⟨task_woken h.task ht hpc pmsg, store_woken h.store e p _, ⟨rfl, rfl, rfl, rfl⟩, ?_, ?_⟩
  · refine Function.update_of_ne (fun hidle => ?_) _ _
    rw [← hidle, h.sched.idle] at ht
    obtain rfl := Option.some.inj ht
    rcases hpc with hpc | hpc <;> cases hpc
  · show (Function.update k.OSTCBPrioTbl p (some (served t pmsg)) k.OSPrioCur).map _ = _
    by_cases hp : k.OSPrioCur = p
    · rw [hp, Function.update_self, ht]
      rfl
    · rw [Function.update_of_ne hp]

theorem call_post (h : Ok k) (e : Ev) (pmsg : Msg) : Call k (k.post e pmsg).kernel := by
  rcases post_cases h.task e pmsg with ⟨p, t, ht, -, hpc, -, hpost⟩ |
    ⟨hnone, ⟨object, hput, hpost⟩ | ⟨-, hpost⟩⟩
  · rw [hpost]
    exact call_woken h ht hpc pmsg
  · rw [hpost]
    exact ⟨task_setObject h.task (Object.stat_of_put hput),
      store_setObject h.store fun _ => hnone, ⟨rfl, rfl, rfl, rfl⟩, rfl, rfl⟩
  · rw [hpost]
    exact .refl h

/-- A post that hands its message to nobody leaves the ready list as it is. -/
theorem rdy_post (h : Ok k) (pmsg : Msg) (hnone : (k.post e pmsg).handedTo.isSome = false) :
    (k.post e pmsg).kernel.OSRdyTbl = k.OSRdyTbl := by
  rcases post_cases h.task e pmsg with ⟨p, t, -, -, -, -, hpost⟩ |
    ⟨-, ⟨object, -, hpost⟩ | ⟨-, hpost⟩⟩
  · rw [hpost] at hnone
    cases hnone
  · rw [hpost]
    rfl
  · rw [hpost]

theorem call_tick (h : Ok k) {p : Prio} (hp : p ≠ OS_TASK_IDLE_PRIO) : Call k (k.tickTcb p) := by
  have htask := task_tick h.task p
  rcases tickTcb_eq k p with heq | ⟨t, t', s, ht, -, hpc, -, heq⟩
  · rw [heq]
    exact .refl h
  · rw [heq] at htask ⊢
    refine ⟨htask, fun e => (h.store e).congr rfl fun _ hq => hq, ⟨rfl, rfl, rfl, rfl⟩, ?_, ?_⟩
    · exact Function.update_of_ne (Ne.symm hp) _ _
    · show (Function.update k.OSTCBPrioTbl p (some t') k.OSPrioCur).map _ = _
      by_cases hcur : k.OSPrioCur = p
      · rw [hcur, Function.update_self, ht, Option.map_some, Option.map_some, hpc]
      · rw [Function.update_of_ne hcur]

theorem call_create (h : Ok k) (prio : Prio) : Call k (k.OSTaskCreate prio).2 := by
  have htask := task_create h.task prio
  rcases create_eq k prio with heq | ⟨hnone, t, l, s, -, heq⟩
  · rw [heq]
    exact .refl h
  · rw [heq] at htask ⊢
    refine ⟨htask, fun e => (h.store e).congr rfl fun _ hq => hq, ⟨rfl, rfl, rfl, rfl⟩, ?_, ?_⟩
    · refine Function.update_of_ne (fun hidle => ?_) _ _
      rw [← hidle, h.sched.idle] at hnone
      cases hnone
    · obtain ⟨t', ht'⟩ := h.sched.cur
      have hcur : k.OSPrioCur ≠ prio := fun hc => by
        rw [← hc, ht'] at hnone
        cases hnone
      exact congrArg _ (Function.update_of_ne hcur _ _)

end Calls

end Kernel

end NetCamera.Rtos
