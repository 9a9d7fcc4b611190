import NetCamera.Rtos.Thread

/-!
# NetCamera.Rtos.ThreadEvents

What a thread does see of the events around its task: the ticks at its control block and the posts
to its objects are those of `ucos` (`Shown.tick`, `Shown.postQueue`, `Shown.postSem`), so that the
two kernels stay together whatever else happens (`View.env`).
-/

namespace NetCamera.Rtos

namespace Kernel

section Steps

variable {o : Owner} {k k' : Kernel} {a : NetCamera.Kernel} {e : Ev} {w : WaitList}

/-- An object is one of the two. -/
theorem Waits.unique {w' : WaitList} (h : Waits o e w) (h' : Waits o e w') : w = w' := by
  cases h with
  | queue =>
      generalize he : o.mbox = e at h'
      cases h' with
      | queue => rfl
      | sem => exact absurd he o.ne
  | sem =>
      generalize he : o.sem = e at h'
      cases h' with
      | queue => exact absurd he.symm o.ne
      | sem => rfl

theorem Waits.unique_event {e' : Ev} (h : Waits o e w) (h' : Waits o e' w) : e = e' := by
  cases h <;> cases h' <;> rfl

/-- The thread is on the list of its object. -/
theorem Shown.waitsOn_iff (hok : Ok k) (h : Shown o k a) (hw : Waits o e w) :
    a.waitsOn = some w ↔ o.prio ∈ k.waiting e := by
  constructor
  · intro hon
    obtain ⟨t, -, hview⟩ := h.task
    cases hview with
    | outside _ _ hnone =>
        rw [hnone] at hon
        cases hon
    | inside e' w' hw' _ hin =>
        rw [hin.waitsOn] at hon
        obtain ⟨hmem, heq⟩ := Option.ite_none_right_eq_some.mp hon
        obtain rfl := Option.some.inj heq
        exact hw'.unique_event hw ▸ hmem
  · intro hmem
    obtain ⟨t, w', -, hw', hin⟩ := h.inside_of_waiting hok hmem
    rw [hin.waitsOn, if_pos hmem, hw'.unique hw]

/-- The control block of a task after a tick. -/
def ticked (t : OS_TCB) : OS_TCB :=
  if t.OSTCBDly = 0 then t
  else if t.OSTCBDly - 1 = 0 then
    if t.OSTCBStat &&& OS_STAT_PEND_ANY ≠ OS_STAT_RDY then
      { t with
        OSTCBDly := 0
        OSTCBStat := t.OSTCBStat &&& ~~~ OS_STAT_PEND_ANY
        OSTCBStatPend := .OS_STAT_PEND_TO }
    else { t with OSTCBDly := 0, OSTCBStatPend := .OS_STAT_PEND_OK }
  else { t with OSTCBDly := t.OSTCBDly - 1 }

/-- What `OSTimeTick` does at the control block of a task. -/
theorem tickTcb_self {p : Prio} {t : OS_TCB} (ht : k.OSTCBPrioTbl p = some t) :
    (k.tickTcb p).OSTCBPrioTbl p = some (ticked t) ∧
      (k.tickTcb p).OSEventTbl = k.OSEventTbl := by
  rw [tickTcb, ht, ticked]
  dsimp only
  by_cases hdly : t.OSTCBDly = 0
  · rw [if_neg (not_not_intro hdly), if_pos hdly]
    exact ⟨ht, rfl⟩
  · rw [if_pos hdly, if_neg hdly]
    by_cases hlast : t.OSTCBDly - 1 = 0
    · rw [if_pos hlast, if_pos hlast, hlast]
      obtain ⟨l, hl⟩ := makeReady_eq (k.setTcb p _) p _
      rw [hl]
      refine ⟨(Function.update_self ..).trans ?_, rfl⟩
      split <;> rfl
    · rw [if_neg hlast, if_neg hlast]
      exact ⟨Function.update_self .., rfl⟩

/-- A tick does not move the task. -/
theorem stkPtr_ticked (t : OS_TCB) : (ticked t).OSTCBStkPtr = t.OSTCBStkPtr := by
  rw [ticked]
  split
  · rfl
  · split
    · split <;> rfl
    · rfl

/-- A tick in a pend. -/
theorem Inside.tick {t : OS_TCB} (h : Inside o k t e w a) (hin : InPend k e o.prio t) :
    Inside o k (ticked t) e w a.OSTimeTick := by
  by_cases hdly : t.OSTCBDly = 0
  · have htick : a.OSTimeTick = { a with OSTime := a.OSTime + 1 } :=
      if_neg (not_not_intro (h.dly.trans hdly))
    rw [ticked, if_pos hdly, htick]
    exact ⟨h.inPend, h.waitsOn, h.pending, h.timedOut, h.dly, h.msg⟩
  · cases hin with
    | timedOut _ hzero => exact absurd hzero hdly
    | handed _ hzero => exact absurd hzero hdly
    | waits hstat hpend hwait =>
        have hpending : a.pending = true := h.pending.mpr (hstat ▸ kind_ne_rdy k e)
        by_cases hlast : t.OSTCBDly - 1 = 0
        · -- the count is over: both are told so
          have htick : a.OSTimeTick = { a with
              OSTime := a.OSTime + 1, OSTCBDly := 0, pending := false
              OSTCBStatPend := .OS_STAT_PEND_TO } := by
            simp [NetCamera.Kernel.OSTimeTick, h.dly, hdly, hlast, hpending]
          have hany : t.OSTCBStat &&& OS_STAT_PEND_ANY ≠ OS_STAT_RDY ∧
              t.OSTCBStat &&& ~~~ OS_STAT_PEND_ANY = OS_STAT_RDY := by
            rw [hstat]
            rcases kind_cases k e with hk | hk <;> rw [hk] <;> decide
          rw [ticked, if_neg hdly, if_pos hlast, if_pos hany.1, htick]
          refine ⟨h.inPend, h.waitsOn, ?_, iff_of_true rfl rfl, rfl, fun hno => absurd hwait hno⟩
          exact iff_of_false Bool.false_ne_true fun hne => hne hany.2
        · have htick : a.OSTimeTick = { a with
              OSTime := a.OSTime + 1, OSTCBDly := t.OSTCBDly - 1 } := by
            simp [NetCamera.Kernel.OSTimeTick, h.dly, hdly, hlast]
          rw [ticked, if_neg hdly, if_neg hlast, htick]
          exact ⟨h.inPend, h.waitsOn, h.pending, h.timedOut, rfl, h.msg⟩

/-- **A tick at the control block** of the task is one to the thread. -/
theorem Shown.tick (hok : Ok k) (h : Shown o k a) : Shown o (k.tickTcb o.prio) a.OSTimeTick := by
  obtain ⟨t, ht, hview⟩ := h.task
  obtain ⟨ht', hevent⟩ := tickTcb_self ht
  obtain ⟨dly, p, stat, htick⟩ := a.exists_OSTimeTick
  have hwait : ∀ e, (k.tickTcb o.prio).waiting e = k.waiting e := fun e => by
    rw [waiting, hevent, waiting]
  refine ⟨?_, ?_, fun e w hw q hq => h.alone e w hw q (hwait e ▸ hq), ticked t, ht', ?_⟩
  · rw [hevent, htick]
    exact h.queue
  · rw [hevent, htick]
    exact h.sem
  · cases hview with
    | outside hpc hin hon =>
        refine .outside (stkPtr_ticked t ▸ hpc) ?_ ?_
        · rw [htick]
          exact hin
        · rw [htick]
          exact hon
    | inside e w hw hpc hin =>
        have hpend : InPend k e o.prio t := by
          have hat := ((hok.task o.prio).of_some ht).2
          rcases hpc with hpc | hpc <;> rw [hpc] at hat <;> exact hat.2
        exact .inside e w hw (stkPtr_ticked t ▸ hpc) ((hin.tick hpend).congr (hwait e))

/-- What is in the objects is no matter of the control block. -/
theorem TaskView.congr {t : OS_TCB} {a' : NetCamera.Kernel} (h : TaskView o k t a)
    (hwait : ∀ e, k'.waiting e = k.waiting e)
    (ha : ∃ q n, a' = { a with OSQ := q, OSEventCnt := n }) : TaskView o k' t a' := by
  obtain ⟨q, n, rfl⟩ := ha
  cases h with
  | outside hpc hin hon => exact .outside hpc hin hon
  | inside e w hw hpc hin =>
      have hin' := hin.congr (hwait e)
      exact .inside e w hw hpc ⟨hin'.inPend, hin'.waitsOn, hin'.pending, hin'.timedOut, hin'.dly,
        hin'.msg⟩

/-- Other messages in the queue. -/
theorem Shown.setQueue (h : Shown o k a) {pq : OS_Q} (hsize : a.OSQSize = pq.OSQSize) :
    Shown o (k.setEvent o.mbox { k.OSEventTbl o.mbox with object := .queue pq })
      { a with OSQ := pq.contents } := by
  have hwait := waiting_setObject k o.mbox (.queue pq)
  obtain ⟨t, ht, hview⟩ := h.task
  refine ⟨⟨pq, ?_, rfl, hsize⟩, ?_, fun e w hw q hq => h.alone e w hw q (hwait e ▸ hq), t, ht,
    hview.congr hwait ⟨_, _, rfl⟩⟩
  · rw [object_setEvent, if_pos rfl]
  · rw [object_setEvent, if_neg (Ne.symm o.ne)]
    exact h.sem

/-- Another count of the semaphore. -/
theorem Shown.setSem (h : Shown o k a) (n : UInt16) :
    Shown o (k.setEvent o.sem { k.OSEventTbl o.sem with object := .sem n })
      { a with OSEventCnt := n } := by
  have hwait := waiting_setObject k o.sem (.sem n)
  obtain ⟨t, ht, hview⟩ := h.task
  refine ⟨?_, ?_, fun e w hw q hq => h.alone e w hw q (hwait e ▸ hq), t, ht,
    hview.congr hwait ⟨_, _, rfl⟩⟩
  · rw [object_setEvent, if_neg o.ne]
    exact h.queue
  · rw [object_setEvent, if_pos rfl]

/-- The thread gets what it waits for. -/
theorem Shown.woken {t : OS_TCB} (hok : Ok k) (h : Shown o k a) (hw : Waits o e w)
    (ht : k.OSTCBPrioTbl o.prio = some t) (hmem : o.prio ∈ k.waiting e)
    (hpc : t.OSTCBStkPtr = .pendSched e ∨ t.OSTCBStkPtr = .pendWake e) (m : Msg) :
    Shown o (k.woken e o.prio (served t m)) (a.OS_EventTaskRdy m) := by
  obtain ⟨t', w', ht', hw', hin⟩ := h.inside_of_waiting hok hmem
  obtain rfl := Option.some.inj (ht.symm.trans ht')
  have hgone : o.prio ∉ (k.woken e o.prio (served t m)).waiting e := fun hp => by
    rw [Kernel.woken, mem_waiting_remove] at hp
    exact hp.1 rfl rfl
  have hobj : ∀ e', ((k.woken e o.prio (served t m)).OSEventTbl e').object =
      (k.OSEventTbl e').object := object_remove _ _ _
  refine ⟨?_, ?_, fun e' w' hw' q hq => ?_, served t m, Function.update_self .., ?_⟩
  · rw [hobj]
    exact h.queue
  · rw [hobj]
    exact h.sem
  · rw [Kernel.woken, mem_waiting_remove] at hq
    exact h.alone e' w' hw' q hq.2
  · refine .inside e w hw hpc ⟨hin.inPend, (if_neg hgone).symm, ?_, ?_, rfl, fun _ => rfl⟩
    · exact iff_of_false Bool.false_ne_true fun hne => hne rfl
    · exact iff_of_false (fun heq => by cases heq) fun heq => by cases heq

/-- **A post to the queue** is one to the thread. -/
theorem Shown.postQueue (hok : Ok k) (h : Shown o k a) (m : Msg) :
    Shown o (k.OSQPost o.mbox m).kernel (a.OSQPost m) := by
  obtain ⟨pq, hqueue, hcontents, hsize⟩ := h.queue
  have hon := h.waitsOn_iff hok .queue
  have hlen : a.OSQ.length = pq.OSQEntries := by rw [hcontents, pq.length_contents]
  have hpost : k.OSQPost o.mbox m = k.post o.mbox m := by
    rw [OSQPost, hqueue]
    rfl
  rw [hpost, NetCamera.Kernel.OSQPost]
  rcases post_cases hok.task o.mbox m with ⟨p, t, ht, hleast, hpc, -, heq⟩ |
    ⟨hnone, ⟨object, hput, heq⟩ | ⟨hput, heq⟩⟩
  · obtain rfl := h.alone _ _ .queue p hleast.1
    rw [heq, if_pos (hon.mpr hleast.1)]
    exact h.woken hok .queue ht hleast.1 hpc m
  · rw [hqueue, Object.put] at hput
    obtain ⟨hlt, hput⟩ := Option.dite_none_right_eq_some.mp hput
    obtain rfl := Option.some.inj hput
    rw [heq, if_neg fun hw => hnone _ (hon.mp hw), if_neg (by omega), hcontents,
      ← pq.contents_put m hlt]
    exact h.setQueue hsize
  · rw [hqueue, Object.put] at hput
    have hfull : ¬ pq.OSQEntries < pq.OSQSize := fun hlt => by simp [hlt] at hput
    rw [heq, if_neg fun hw => hnone _ (hon.mp hw), if_pos (by omega)]
    exact h

/-- **A post to the semaphore** is one to the thread. -/
theorem Shown.postSem (hok : Ok k) (h : Shown o k a) :
    Shown o (k.OSSemPost o.sem).kernel a.OSSemPost := by
  have hon := h.waitsOn_iff hok .sem
  have hpost : k.OSSemPost o.sem = k.post o.sem 0 := by
    rw [OSSemPost, h.sem]
    rfl
  rw [hpost, NetCamera.Kernel.OSSemPost]
  rcases post_cases hok.task o.sem 0 with ⟨p, t, ht, hleast, hpc, -, heq⟩ |
    ⟨hnone, ⟨object, hput, heq⟩ | ⟨hput, heq⟩⟩
  · obtain rfl := h.alone _ _ .sem p hleast.1
    rw [heq, if_pos (hon.mpr hleast.1)]
    exact h.woken hok .sem ht hleast.1 hpc 0
  · rw [h.sem, Object.put] at hput
    obtain ⟨hlt, hput⟩ := Option.ite_none_right_eq_some.mp hput
    obtain rfl := Option.some.inj hput
    rw [heq, if_neg fun hw => hnone _ (hon.mp hw), if_pos hlt]
    exact h.setSem _
  · rw [h.sem, Object.put] at hput
    have hfull : ¬ a.OSEventCnt < 65535 := fun hlt => by simp [hlt] at hput
    rw [heq, if_neg fun hw => hnone _ (hon.mp hw), if_neg hfull]
    exact h

/-- **An event around the task** is to the thread what it sees of it. -/
theorem Shown.env {s : Watched} {ev : Event} (hok : s.kernel.Ok) (h : Shown o s.kernel a)
    (hr : Around o s ev) (hk : s.kernel.step ev = some k') :
    Shown o k' ((o.seen ev).foldl (fun a e => ucos.env e a) a) := by
  by_cases hseen : o.seen ev = []
  · rw [hseen]
    exact h.congr (leaves_step hok h hr hseen hk)
  · cases ev with
    | tickTcb p =>
        obtain rfl : p = o.prio := by_contra fun hp => hseen (if_neg hp)
        obtain ⟨-, hk⟩ := Option.ite_none_right_eq_some.mp hk
        obtain rfl := Option.some.inj hk
        rw [Owner.seen, if_pos rfl]
        exact h.tick hok
    | OSQPost e m =>
        obtain rfl : e = o.mbox := by_contra fun he => hseen (if_neg he)
        have hcur : (s.kernel.OSQPost o.mbox m).kernel.OSPrioCur = s.kernel.OSPrioCur := by
          rcases OSQPost_cases s.kernel o.mbox m with ⟨e', m', heq⟩ | ⟨err, heq⟩ <;> rw [heq]
          exact (still_post hok e' m').cur
        rw [Owner.seen, if_pos rfl]
        refine (h.postQueue hok m).congr (leaves_posted (fun hnest => ?_) hk)
        exact hcur ▸ hr.other hnest (by simp) (by simp)
    | OSSemPost e =>
        obtain rfl : e = o.sem := by_contra fun he => hseen (if_neg he)
        have hcur : (s.kernel.OSSemPost o.sem).kernel.OSPrioCur = s.kernel.OSPrioCur := by
          rcases OSSemPost_cases s.kernel o.sem with ⟨e', m', heq⟩ | ⟨err, heq⟩ <;> rw [heq]
          exact (still_post hok e' m').cur
        rw [Owner.seen, if_pos rfl]
        refine (h.postSem hok).congr (leaves_posted (fun hnest => ?_) hk)
        exact hcur ▸ hr.other hnest (by simp) (by simp)
    | _ => exact absurd rfl hseen

end Steps

end Kernel

/-- What the thread sees of an event takes no time, unless it is a tick. -/
theorem OSTime_seen (o : Owner) (ev : Event) (a : NetCamera.Kernel) :
    ((o.seen ev).foldl (fun a e => ucos.env e a) a).OSTime =
      a.OSTime + if ev = .tickTcb o.prio then 1 else 0 := by
  cases ev with
  | tickTcb p =>
      rw [Owner.seen]
      split
      · next hp => rw [hp, if_pos rfl]; exact a.OSTime_OSTimeTick
      · next hp =>
          rw [if_neg fun heq => hp (Event.tickTcb.inj heq)]
          exact (UInt32.add_zero _).symm
  | OSQPost e m =>
      rw [Owner.seen]
      split
      · exact (NetCamera.Kernel.OSTime_post (by simp)).trans (UInt32.add_zero _).symm
      · exact (UInt32.add_zero _).symm
  | OSSemPost e =>
      rw [Owner.seen]
      split
      · exact (NetCamera.Kernel.OSTime_post (by simp)).trans (UInt32.add_zero _).symm
      · exact (UInt32.add_zero _).symm
  | _ => exact (UInt32.add_zero _).symm

/-- No other event starts or ends a tick. -/
theorem counted_of_ne {o : Owner} {ev : Event} (ticking : Bool) (hcount : ev ≠ .OSTime)
    (htick : ev ≠ .tickTcb o.prio) : o.counted ticking ev = ticking := by
  cases ev with
  | OSTime => exact absurd rfl hcount
  | tickTcb p => exact if_neg fun hp => htick (congrArg Event.tickTcb hp)
  | _ => rfl

theorem counted_eq_true {o : Owner} {ev : Event} {ticking : Bool}
    (h : o.counted ticking ev = true) : ev = .OSTime ∨ ticking = true := by
  cases ev with
  | OSTime => exact .inl rfl
  | tickTcb p =>
      rw [Owner.counted] at h
      split at h
      · cases h
      · exact .inr h
  | _ => exact .inr h

section View

variable {o : Owner} {s : Watched} {a : NetCamera.Kernel} {k' : Kernel} {ev : Event}

/-- The scheduler is not locked where the task comes to run, and nobody else locks it while it
runs. -/
theorem unlocked_step (hr : Around o s ev) (hctl : s.kernel.Ctl ev k')
    (hlock : s.kernel.OSPrioCur = o.prio → s.kernel.OSLockNesting = 0) :
    k'.OSPrioCur = o.prio → k'.OSLockNesting = 0 := by
  intro hcur
  rcases hctl.cur with ⟨hsame, hkept | ⟨hnest, hev⟩⟩ | ⟨-, hopen⟩
  · rw [hkept]
    exact hlock (hsame ▸ hcur)
  · refine absurd (hsame ▸ hcur) (hr.other hnest ?_ ?_) <;> rcases hev with rfl | rfl <;> simp
  · exact hopen

/-- A tick that is still to come keeps its interrupt. -/
theorem nest_step (hr : Around o s ev) (hctl : s.kernel.Ctl ev k')
    (hticking : s.ticking = true → s.kernel.OSIntNesting ≠ 0)
    (h : o.counted s.ticking ev = true) : k'.OSIntNesting ≠ 0 := by
  rcases hctl.nest with ⟨hsame, hinside⟩ | ⟨-, hne⟩ | ⟨rfl, hpos, hsub⟩
  · rw [hsame]
    exact (counted_eq_true h).elim hinside hticking
  · exact hne
  · intro hzero
    have hone : s.kernel.OSIntNesting = 1 := by
      rw [hsub, UInt8.sub_eq_iff_eq_add] at hzero
      exact hzero
    have hwhole := hr.whole rfl hone
    rw [show o.counted s.ticking .OSIntExit = s.ticking from rfl, hwhole] at h
    cases h

/-- **Around the task** the kernel and the thread's own stay together. -/
theorem View.env (h : View o s a) (hr : Around o s ev) :
    View o ((rtos o).env ev s) ((o.seen ev).foldl (fun a e => ucos.env e a) a) := by
  obtain ⟨k', hk⟩ := Option.isSome_iff_exists.mp hr.possible
  have henv : (rtos o).env ev s = ⟨k', o.counted s.ticking ev⟩ := by simp only [rtos, hk]
  rw [henv]
  have hctl := Kernel.ctl_step h.ok hk
  refine ⟨Kernel.ok_step h.ok hk, h.shown.env h.ok hr hk, unlocked_step hr hctl h.unlocked, ?_,
    nest_step hr hctl h.ticking⟩
  show k'.OSTime = _
  rw [hctl.time, OSTime_seen, h.time]
  by_cases hcount : ev = .OSTime
  · have hnone := hr.counted hcount
    subst hcount
    simp [hnone, Owner.counted]
  · by_cases htick : ev = .tickTcb o.prio
    · have hsome := hr.ticked htick
      subst htick
      simp [hsome, Owner.counted]
    · rw [counted_of_ne _ hcount htick, if_neg hcount, if_neg htick, UInt32.add_zero,
        UInt32.add_zero]

end View

end NetCamera.Rtos
