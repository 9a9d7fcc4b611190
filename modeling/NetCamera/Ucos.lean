import NetCamera.Lib.Calls

/-!
# NetCamera.Ucos

What a thread that waits sees of the kernel: the tick counter, a message queue, a
semaphore, and its own control block.

A pend with nothing there puts the task on the wait list and its timeout into
`OSTCBDly`.  `OSTimeTick` counts that down and makes the task ready at zero; a count
that is zero from the start is not touched (`Blocked.env`), any other one ends the
wait (`ready_of_ticks`), but not before its ticks are over (`ticks_of_timeout`).  A task
whose time is up stays on the wait list until it runs, so a message may still reach it.

That a thread sees no more than this of the whole kernel, with its other tasks and its
interrupts, is shown in `NetCamera.Rtos.ThreadRun`.
-/

namespace NetCamera

open Calls Run

/-! ## Calls -/

/-- `*perr`. -/
inductive OsErr where
  | OS_ERR_NONE
  | OS_ERR_EVENT_TYPE
  | OS_ERR_PEND_ISR
  | OS_ERR_TIMEOUT
  | OS_ERR_PEND_LOCKED
  | OS_ERR_PEND_ABORT
  deriving DecidableEq, Repr

/-- The calls of a thread; the object is the thread's queue or semaphore. -/
inductive OsCall where
  | OSTimeGet
  | OSQPend (timeout : UInt32)
  | OSSemPend (timeout : UInt32)
  deriving DecidableEq, Repr

/-- What a call returns: the counter, the message and `*perr`, or `*perr`. -/
abbrev OsCall.Answer : OsCall → Type
  | .OSTimeGet => UInt32
  | .OSQPend _ => UInt32 × OsErr
  | .OSSemPend _ => OsErr

/-- A program over the kernel. -/
abbrev Os := Prog OsCall.Answer

def OSTimeGet : Os UInt32 := ask (.OSTimeGet : OsCall)

def OSQPend (timeout : UInt32) : Os (UInt32 × OsErr) := ask (.OSQPend timeout : OsCall)

def OSSemPend (timeout : UInt32) : Os OsErr := ask (.OSSemPend timeout : OsCall)

/-! ## The kernel -/

/-- `OSTCBStatPend`, for waits that nobody aborts. -/
inductive StatPend where
  | OS_STAT_PEND_OK
  | OS_STAT_PEND_TO
  deriving DecidableEq, Repr

/-- The object whose wait list a task is on. -/
inductive WaitList where
  | queue
  | sem
  deriving DecidableEq, Repr

/-- The counter, the objects, and the control block of the thread: whether it is in a pend, on
which wait list, and whether it waits (`OSTCBStat & OS_STAT_PEND_ANY`). -/
structure Kernel where
  OSTime : UInt32
  OSQ : List UInt32
  OSQSize : Nat
  OSEventCnt : UInt16
  inPend : Bool
  waitsOn : Option WaitList
  pending : Bool
  OSTCBStatPend : StatPend
  OSTCBDly : UInt32
  OSTCBMsg : UInt32
  deriving Repr

namespace Kernel

/-- The tick interrupt. -/
def OSTimeTick (k : Kernel) : Kernel :=
  let k := { k with OSTime := k.OSTime + 1 }
  if k.OSTCBDly ≠ 0 then
    let k := { k with OSTCBDly := k.OSTCBDly - 1 }
    if k.OSTCBDly = 0 then
      if k.pending then { k with pending := false, OSTCBStatPend := .OS_STAT_PEND_TO }
      else { k with OSTCBStatPend := .OS_STAT_PEND_OK }
    else k
  else k

/-- The task gets what it waits for. -/
def OS_EventTaskRdy (pmsg : UInt32) (k : Kernel) : Kernel :=
  { k with OSTCBDly := 0, OSTCBMsg := pmsg, pending := false
           OSTCBStatPend := .OS_STAT_PEND_OK, waitsOn := none }

def OSQPost (pmsg : UInt32) (k : Kernel) : Kernel :=
  if k.waitsOn = some .queue then k.OS_EventTaskRdy pmsg
  else if k.OSQ.length ≥ k.OSQSize then k
  else { k with OSQ := k.OSQ ++ [pmsg] }

def OSSemPost (k : Kernel) : Kernel :=
  if k.waitsOn = some .sem then k.OS_EventTaskRdy 0
  else if k.OSEventCnt < 65535 then { k with OSEventCnt := k.OSEventCnt + 1 }
  else k

/-- `OS_EventTaskWait`, with the timeout in the control block. -/
def OS_EventTaskWait (w : WaitList) (timeout : UInt32) (k : Kernel) : Kernel :=
  { k with inPend := true, waitsOn := some w, pending := true
           OSTCBStatPend := .OS_STAT_PEND_OK, OSTCBDly := timeout }

/-- The end of a pend; a task whose time was up leaves the wait list only here. -/
def leave (k : Kernel) : Kernel :=
  { k with inPend := false, waitsOn := none, OSTCBStatPend := .OS_STAT_PEND_OK }

/-- From the entry of `OSQPend` to `OS_Sched`, and, when the task runs again, to the end. -/
def OSQPend (timeout : UInt32) (k : Kernel) : Option (Option (UInt32 × OsErr) × Kernel) :=
  if k.inPend then
    if k.pending then none
    else match k.OSTCBStatPend with
      | .OS_STAT_PEND_OK => some (some (k.OSTCBMsg, .OS_ERR_NONE), { k.leave with OSTCBMsg := 0 })
      | .OS_STAT_PEND_TO => some (some (0, .OS_ERR_TIMEOUT), { k.leave with OSTCBMsg := 0 })
  else match k.OSQ with
    | pmsg :: q => some (some (pmsg, .OS_ERR_NONE), { k with OSQ := q })
    | [] => some (none, k.OS_EventTaskWait .queue timeout)

def OSSemPend (timeout : UInt32) (k : Kernel) : Option (Option OsErr × Kernel) :=
  if k.inPend then
    if k.pending then none
    else match k.OSTCBStatPend with
      | .OS_STAT_PEND_OK => some (some .OS_ERR_NONE, k.leave)
      | .OS_STAT_PEND_TO => some (some .OS_ERR_TIMEOUT, k.leave)
  else if k.OSEventCnt > 0 then some (some .OS_ERR_NONE, { k with OSEventCnt := k.OSEventCnt - 1 })
  else some (none, k.OS_EventTaskWait .sem timeout)

end Kernel

/-- The tick interrupt, and what other threads post. -/
inductive KernelEvent where
  | OSTimeTick
  | OSQPost (pmsg : UInt32)
  | OSSemPost
  deriving DecidableEq, Repr

/-- The kernel as it answers the calls of the thread. -/
def ucos : Machine OsCall.Answer Kernel KernelEvent where
  serve
    | .OSTimeGet, k => some (some k.OSTime, k)
    | .OSQPend timeout, k => k.OSQPend timeout
    | .OSSemPend timeout, k => k.OSSemPend timeout
  env
    | .OSTimeTick, k => k.OSTimeTick
    | .OSQPost pmsg, k => k.OSQPost pmsg
    | .OSSemPost, k => k.OSSemPost

/-- Events of the kernel, the thread standing still. -/
abbrev Kernel.after (k : Kernel) (es : List KernelEvent) : Kernel :=
  es.foldl (fun k e => ucos.env e k) k

/-! ## What a call does -/

/-- The object and the timeout of a pend. -/
def OsCall.pends : OsCall → Option (WaitList × UInt32)
  | .OSTimeGet => none
  | .OSQPend timeout => some (.queue, timeout)
  | .OSSemPend timeout => some (.sem, timeout)

/-- `*perr` after a call. -/
def OsCall.err : (q : OsCall) → q.Answer → OsErr
  | .OSTimeGet, _ => .OS_ERR_NONE
  | .OSQPend _, r => r.2
  | .OSSemPend _, ucErr => ucErr

/-- **A call** is answered at once, or at the end of a pend, or puts the task on a wait list. -/
theorem serve_cases {q : OsCall} {k k' : Kernel} {ans : Option q.Answer}
    (h : ucos.serve q k = some (ans, k')) :
    (∃ b l n, ans = some b ∧ q.err b = .OS_ERR_NONE ∧
        k' = { k with OSQ := l, OSEventCnt := n }) ∨
      (∃ b pmsg, ans = some b ∧ k.inPend = true ∧
        (q.err b = .OS_ERR_TIMEOUT → k.OSTCBStatPend = .OS_STAT_PEND_TO) ∧
        k' = { k.leave with OSTCBMsg := pmsg }) ∨
      ∃ w n, q.pends = some (w, n) ∧ ans = none ∧ k' = k.OS_EventTaskWait w n := by
  cases q with
  | OSTimeGet =>
      cases h
      exact Or.inl ⟨_, _, _, rfl, rfl, rfl⟩
  | OSQPend timeout =>
      have hpend : k.OSQPend timeout = some (ans, k') := h
      unfold Kernel.OSQPend at hpend
      split at hpend
      · next hin =>
          split at hpend
          · cases hpend
          · split at hpend
            · cases hpend
              exact Or.inr (Or.inl ⟨_, _, rfl, hin, fun herr => (nomatch herr), rfl⟩)
            · next hto =>
                cases hpend
                exact Or.inr (Or.inl ⟨_, _, rfl, hin, fun _ => hto, rfl⟩)
      · split at hpend
        · cases hpend
          exact Or.inl ⟨_, _, _, rfl, rfl, rfl⟩
        · cases hpend
          exact Or.inr (Or.inr ⟨_, _, rfl, rfl, rfl⟩)
  | OSSemPend timeout =>
      have hpend : k.OSSemPend timeout = some (ans, k') := h
      unfold Kernel.OSSemPend at hpend
      split at hpend
      · next hin =>
          split at hpend
          · cases hpend
          · split at hpend
            · cases hpend
              exact Or.inr (Or.inl ⟨_, _, rfl, hin, fun herr => (nomatch herr), rfl⟩)
            · next hto =>
                cases hpend
                exact Or.inr (Or.inl ⟨_, _, rfl, hin, fun _ => hto, rfl⟩)
      · split at hpend
        · cases hpend
          exact Or.inl ⟨_, _, _, rfl, rfl, rfl⟩
        · cases hpend
          exact Or.inr (Or.inr ⟨_, _, rfl, rfl, rfl⟩)

/-! ## What an event does -/

/-- The object that an event posts to. -/
def KernelEvent.posts : KernelEvent → Option WaitList
  | .OSTimeTick => none
  | .OSQPost _ => some .queue
  | .OSSemPost => some .sem

namespace Kernel

/-- **A tick** counts, and takes one off a count that is there; at zero the task is ready. -/
theorem OSTimeTick_cases (k : Kernel) :
    (k.OSTCBDly = 0 ∧ k.OSTimeTick = { k with OSTime := k.OSTime + 1 }) ∨
      (k.OSTCBDly.toNat = 1 ∧ k.OSTimeTick =
        { k with OSTime := k.OSTime + 1, OSTCBDly := 0, pending := false
                 OSTCBStatPend := if k.pending then .OS_STAT_PEND_TO else .OS_STAT_PEND_OK }) ∨
      ∃ dly, dly ≠ 0 ∧ k.OSTCBDly.toNat = dly.toNat + 1 ∧
        k.OSTimeTick = { k with OSTime := k.OSTime + 1, OSTCBDly := dly } := by
  unfold OSTimeTick
  dsimp only
  by_cases hdly : k.OSTCBDly = 0
  · exact Or.inl ⟨hdly, if_neg (not_not_intro hdly)⟩
  · rw [if_pos hdly]
    have hpos : 1 ≤ k.OSTCBDly := by
      rw [UInt32.le_iff_toNat_le]
      exact Nat.pos_of_ne_zero fun hzero => hdly (UInt32.toNat_inj.mp hzero)
    have hone : (1 : UInt32).toNat = 1 := rfl
    have hcount : k.OSTCBDly.toNat = (k.OSTCBDly - 1).toNat + 1 := by
      rw [UInt32.toNat_sub_of_le _ _ hpos, hone]
      exact (Nat.sub_add_cancel (UInt32.le_iff_toNat_le.mp hpos)).symm
    by_cases hlast : k.OSTCBDly - 1 = 0
    · refine Or.inr (Or.inl ⟨by rw [hcount, hlast]; rfl, ?_⟩)
      rw [if_pos hlast, hlast]
      by_cases hpending : k.pending = true
      · rw [if_pos hpending, if_pos hpending]
      · rw [if_neg hpending, if_neg hpending, Bool.eq_false_iff.mpr hpending]
    · exact Or.inr (Or.inr ⟨_, hlast, hcount, if_neg hlast⟩)

/-- A tick changes what it may of the control block. -/
theorem exists_OSTimeTick (k : Kernel) : ∃ dly p stat, k.OSTimeTick =
    { k with OSTime := k.OSTime + 1, OSTCBDly := dly, pending := p, OSTCBStatPend := stat } := by
  rcases k.OSTimeTick_cases with ⟨-, heq⟩ | ⟨-, heq⟩ | ⟨dly, -, -, heq⟩
  · exact ⟨_, _, _, heq⟩
  · exact ⟨_, _, _, heq⟩
  · exact ⟨_, _, _, heq⟩

/-- **A post** makes the task ready where it waits on that object, and else leaves its control
block alone. -/
theorem env_post {k : Kernel} {e : KernelEvent} (he : e ≠ .OSTimeTick) :
    (e.posts = k.waitsOn ∧ ∃ pmsg, ucos.env e k = k.OS_EventTaskRdy pmsg) ∨
      (e.posts ≠ k.waitsOn ∧ ∃ q n, ucos.env e k = { k with OSQ := q, OSEventCnt := n } ∧
        (e.posts ≠ some .queue → q = k.OSQ) ∧ (e.posts ≠ some .sem → n = k.OSEventCnt)) := by
  cases e with
  | OSTimeTick => exact absurd rfl he
  | OSQPost pmsg =>
      by_cases hw : k.waitsOn = some .queue
      · exact Or.inl ⟨hw.symm, pmsg, if_pos hw⟩
      · refine Or.inr ⟨fun heq => hw heq.symm, ?_⟩
        show ∃ q n, k.OSQPost pmsg = { k with OSQ := q, OSEventCnt := n } ∧ _
        rw [OSQPost, if_neg hw]
        split
        · exact ⟨k.OSQ, k.OSEventCnt, rfl, fun _ => rfl, fun _ => rfl⟩
        · exact ⟨_, k.OSEventCnt, rfl, fun hq => absurd rfl hq, fun _ => rfl⟩
  | OSSemPost =>
      by_cases hw : k.waitsOn = some .sem
      · exact Or.inl ⟨hw.symm, 0, if_pos hw⟩
      · refine Or.inr ⟨fun heq => hw heq.symm, ?_⟩
        show ∃ q n, k.OSSemPost = { k with OSQ := q, OSEventCnt := n } ∧ _
        rw [OSSemPost, if_neg hw]
        split
        · exact ⟨k.OSQ, _, rfl, fun _ => rfl, fun hn => absurd rfl hn⟩
        · exact ⟨k.OSQ, k.OSEventCnt, rfl, fun _ => rfl, fun _ => rfl⟩

end Kernel

/-! ## The tick counter -/

/-- How many ticks there are. -/
def ticks (es : List (Calls.Event KernelEvent)) : Nat := es.count (.env .OSTimeTick)

theorem ticks_cons (e : Calls.Event KernelEvent) (es : List (Calls.Event KernelEvent)) :
    ticks (e :: es) = ticks es + if e = .env .OSTimeTick then 1 else 0 := by
  simp only [ticks, List.count_cons, beq_iff_eq]

namespace Kernel

theorem OSTime_OSTimeTick (k : Kernel) : k.OSTimeTick.OSTime = k.OSTime + 1 := by
  obtain ⟨dly, p, stat, heq⟩ := k.exists_OSTimeTick
  rw [heq]

theorem OSTime_post {k : Kernel} {e : KernelEvent} (he : e ≠ .OSTimeTick) :
    (ucos.env e k).OSTime = k.OSTime := by
  rcases env_post (k := k) he with ⟨-, pmsg, heq⟩ | ⟨-, q, n, heq, -⟩
  · rw [heq]
    rfl
  · rw [heq]

/-- A call takes no time. -/
theorem OSTime_serve {q : OsCall} {k k' : Kernel} {ans : Option q.Answer}
    (h : ucos.serve q k = some (ans, k')) : k'.OSTime = k.OSTime := by
  obtain ⟨b, l, n, -, -, rfl⟩ | ⟨b, pmsg, -, -, -, rfl⟩ | ⟨w, n, -, -, rfl⟩ := serve_cases h
  · rfl
  · rfl
  · rfl

end Kernel

section run

variable {α : Type} {t t' : Thread OsCall.Answer Kernel α}

theorem OSTime_step {e : Calls.Event KernelEvent} (hstep : ucos.step t e = some t') :
    t'.state.OSTime = t.state.OSTime + if e = .env .OSTimeTick then 1 else 0 := by
  cases e with
  | go =>
      rw [if_neg (by simp), UInt32.add_zero]
      obtain ⟨q, f, ans, k', -, hserve, rfl⟩ := step_go hstep
      cases ans <;> exact Kernel.OSTime_serve hserve
  | env e =>
      cases hstep
      by_cases he : e = .OSTimeTick
      · subst he
        exact t.state.OSTime_OSTimeTick
      · rw [if_neg fun heq => he (Calls.Event.env.inj heq), UInt32.add_zero]
        exact Kernel.OSTime_post he

/-- **The counter counts the ticks** of a run. -/
theorem OSTime_run {es : List (Calls.Event KernelEvent)} (hrun : run ucos.step t es = some t') :
    t'.state.OSTime = t.state.OSTime + UInt32.ofNat (ticks es) := by
  induction es generalizing t with
  | nil =>
      cases hrun
      exact (UInt32.add_zero _).symm
  | cons e es ih =>
      obtain ⟨s, hstep, hrest⟩ := run_cons_eq_some.mp hrun
      rw [ih hrest, OSTime_step hstep, ticks_cons, UInt32.add_assoc, UInt32.ofNat_add,
        UInt32.add_comm (UInt32.ofNat (ticks es))]
      split <;> rfl

end run

/-! ## The end of a wait -/

namespace Kernel

/-- A task leaves its pend only by itself. -/
theorem inPend_env (k : Kernel) (e : KernelEvent) : (ucos.env e k).inPend = k.inPend := by
  by_cases htick : e = .OSTimeTick
  · obtain ⟨dly, p, stat, heq⟩ := k.exists_OSTimeTick
    subst htick
    show k.OSTimeTick.inPend = k.inPend
    rw [heq]
  · rcases env_post (k := k) htick with ⟨-, pmsg, heq⟩ | ⟨-, q, n, heq, -⟩
    · rw [heq]
      rfl
    · rw [heq]

theorem inPend_after (k : Kernel) (es : List KernelEvent) : (k.after es).inPend = k.inPend := by
  induction es generalizing k with
  | nil => rfl
  | cons e es ih => exact (ih (ucos.env e k)).trans (k.inPend_env e)

variable {k : Kernel} {e : KernelEvent} {w : WaitList}

/-- The task is in no pend, and there is nothing for it. -/
structure Idle (k : Kernel) (w : WaitList) : Prop where
  inPend : k.inPend = false
  queue : w = .queue → k.OSQ = []
  sem : w = .sem → k.OSEventCnt = 0

/-- Only posts to the object change that. -/
theorem Idle.env (h : k.Idle w) (he : e.posts ≠ some w) : (ucos.env e k).Idle w := by
  by_cases htick : e = .OSTimeTick
  · obtain ⟨dly, p, stat, heq⟩ := k.exists_OSTimeTick
    subst htick
    show k.OSTimeTick.Idle w
    rw [heq]
    exact ⟨h.inPend, h.queue, h.sem⟩
  · rcases env_post (k := k) htick with ⟨-, pmsg, heq⟩ | ⟨-, q, n, heq, hq, hn⟩
    · rw [heq]
      exact ⟨h.inPend, h.queue, h.sem⟩
    · rw [heq]
      exact ⟨h.inPend, fun hw => (hq (hw ▸ he)).trans (h.queue hw),
        fun hw => (hn (hw ▸ he)).trans (h.sem hw)⟩

/-- The task waits without a count. -/
structure Blocked (k : Kernel) (w : WaitList) : Prop where
  inPend : k.inPend = true
  waitsOn : k.waitsOn = some w
  pending : k.pending = true
  dly : k.OSTCBDly = 0

/-- **Ticks do not end** such a wait, and no post to another object does. -/
theorem Blocked.env (h : k.Blocked w) (he : e.posts ≠ some w) : (ucos.env e k).Blocked w := by
  by_cases htick : e = .OSTimeTick
  · subst htick
    have heq : k.OSTimeTick = { k with OSTime := k.OSTime + 1 } := if_neg fun hne => hne h.dly
    show k.OSTimeTick.Blocked w
    rw [heq]
    exact ⟨h.inPend, h.waitsOn, h.pending, h.dly⟩
  · rcases env_post (k := k) htick with ⟨hw, -⟩ | ⟨-, q, n, heq, -⟩
    · exact absurd (hw.trans h.waitsOn) he
    · rw [heq]
      exact ⟨h.inPend, h.waitsOn, h.pending, h.dly⟩

/-- A task that waits with a count has `n` ticks to go at most. -/
def DueIn (k : Kernel) (n : Nat) : Prop :=
  k.pending = true → k.OSTCBDly ≠ 0 ∧ k.OSTCBDly.toNat ≤ n

theorem dueIn_OSTimeTick {n : Nat} (h : k.DueIn (n + 1)) : k.OSTimeTick.DueIn n := by
  rcases k.OSTimeTick_cases with ⟨hdly, heq⟩ | ⟨-, heq⟩ | ⟨dly, hne, hcount, heq⟩
  · rw [heq]
    exact fun hpending => absurd hdly (h hpending).1
  · rw [heq]
    exact fun hpending => nomatch hpending
  · rw [heq]
    intro hpending
    have hle := (h hpending).2
    rw [hcount] at hle
    exact ⟨hne, Nat.le_of_succ_le_succ hle⟩

theorem dueIn_post {n : Nat} (h : k.DueIn n) (he : e ≠ .OSTimeTick) :
    (ucos.env e k).DueIn n := by
  rcases env_post (k := k) he with ⟨-, pmsg, heq⟩ | ⟨-, q, m, heq, -⟩
  · rw [heq]
    exact fun hpending => absurd hpending (by simp [OS_EventTaskRdy])
  · rw [heq]
    exact h

/-- **A wait with a count ends** after that many ticks at the latest, whatever is posted. -/
theorem ready_of_ticks {es : List KernelEvent} (h : k.DueIn (es.count .OSTimeTick)) :
    (k.after es).pending = false := by
  induction es generalizing k with
  | nil =>
      cases hpending : k.pending with
      | false => exact hpending
      | true =>
          obtain ⟨hne, hle⟩ := h hpending
          exact absurd (UInt32.toNat_inj.mp (Nat.le_zero.mp hle)) hne
  | cons e es ih =>
      refine ih ?_
      by_cases he : e = .OSTimeTick
      · rw [he, List.count_cons_self] at h
        rw [he]
        exact dueIn_OSTimeTick h
      · rw [List.count_cons_of_ne he] at h
        exact dueIn_post h he

end Kernel

/-! ## Programs that wait -/

namespace Kernel

variable {k : Kernel} {q : OsCall} {w : WaitList} {n : UInt32}

theorem serve_of_pends_none (h : q.pends = none) : ∃ b, ucos.serve q k = some (some b, k) := by
  cases q with
  | OSTimeGet => exact ⟨k.OSTime, rfl⟩
  | OSQPend timeout => cases h
  | OSSemPend timeout => cases h

/-- With nothing there the task is put on the wait list. -/
theorem serve_of_idle (h : q.pends = some (w, n)) (hidle : k.Idle w) :
    ucos.serve q k = some (none, k.OS_EventTaskWait w n) := by
  cases q with
  | OSTimeGet => cases h
  | OSQPend timeout =>
      cases h
      show k.OSQPend n = _
      rw [OSQPend, hidle.inPend, hidle.queue rfl]
      rfl
  | OSSemPend timeout =>
      cases h
      show k.OSSemPend n = _
      rw [OSSemPend, hidle.inPend, hidle.sem rfl]
      rfl

theorem serve_of_pending (h : q.pends = some (w, n)) (hin : k.inPend = true)
    (hpending : k.pending = true) : ucos.serve q k = none := by
  cases q with
  | OSTimeGet => cases h
  | OSQPend timeout =>
      show k.OSQPend timeout = none
      rw [OSQPend, hin, hpending]
      rfl
  | OSSemPend timeout =>
      show k.OSSemPend timeout = none
      rw [OSSemPend, hin, hpending]
      rfl

theorem serve_of_ready (h : q.pends = some (w, n)) (hin : k.inPend = true)
    (hready : k.pending = false) : ∃ b k', ucos.serve q k = some (some b, k') := by
  cases q with
  | OSTimeGet => cases h
  | OSQPend timeout =>
      show ∃ b k', k.OSQPend timeout = some (some b, k')
      rw [OSQPend, hin, hready]
      cases k.OSTCBStatPend <;> exact ⟨_, _, rfl⟩
  | OSSemPend timeout =>
      show ∃ b k', k.OSSemPend timeout = some (some b, k')
      rw [OSSemPend, hin, hready]
      cases k.OSTCBStatPend <;> exact ⟨_, _, rfl⟩

end Kernel

/-- The program pends once, on `w` and for `n`, and else reads the counter. -/
def WaitsFor {α : Type} (w : WaitList) (n : UInt32) : Os α → Prop
  | .ret _ => False
  | .call q f => (q.pends = none ∧ ∀ b, WaitsFor w n (f b)) ∨
      (q.pends = some (w, n) ∧ ∀ b, (f b).OnlyCalls fun q => q.pends = none)

theorem calls_of_waitsFor {α : Type} {w : WaitList} {n : UInt32} {p : Os α}
    (h : WaitsFor w n p) : p.OnlyCalls fun q => ∀ m, q.pends = some m → m = (w, n) := by
  have htime : ∀ q : OsCall, q.pends = none → ∀ m, q.pends = some m → m = (w, n) := by
    intro q hq m hm
    rw [hq] at hm
    cases hm
  induction p with
  | ret r => trivial
  | call q f ih =>
      rcases h with ⟨hq, hrest⟩ | ⟨hq, hreads⟩
      · exact ⟨htime q hq, fun b => ih b (hrest b)⟩
      · refine ⟨fun m hm => ?_, fun b => (hreads b).mono htime⟩
        rw [hq] at hm
        exact (Option.some.inj hm).symm

/-- Nobody posts to `w`. -/
def NoPost (w : WaitList) (e : Calls.Event KernelEvent) : Prop :=
  ∀ e', e = .env e' → e'.posts ≠ some w

section wait

variable {α : Type} {p : Os α} {k : Kernel} {w : WaitList} {n : UInt32}
  {t t' : Thread OsCall.Answer Kernel α}

/-- The thread is on its way into a wait without a count, or in it. -/
def Stuck (w : WaitList) (t : Thread OsCall.Answer Kernel α) : Prop :=
  WaitsFor w 0 t.prog ∧
    (t.state.Idle w ∨ ∃ q f, t.prog = .call q f ∧ q.pends = some (w, 0) ∧ t.state.Blocked w)

/-- **There it stays** as long as nobody posts. -/
theorem Stuck.step {e : Calls.Event KernelEvent} (h : Stuck w t) (he : NoPost w e)
    (hstep : ucos.step t e = some t') : Stuck w t' := by
  obtain ⟨hwaits, hstate⟩ := h
  cases e with
  | env e =>
      cases hstep
      refine ⟨hwaits, ?_⟩
      rcases hstate with hidle | ⟨q, f, hprog, hpends, hblocked⟩
      · exact Or.inl (hidle.env (he e rfl))
      · exact Or.inr ⟨q, f, hprog, hpends, hblocked.env (he e rfl)⟩
  | go =>
      obtain ⟨q, f, ans, k', hprog, hserve, rfl⟩ := step_go hstep
      rcases hstate with hidle | ⟨q', f', hprog', hpends, hblocked⟩
      · have hcall := hwaits
        rw [hprog] at hcall
        rcases hcall with ⟨htime, hrest⟩ | ⟨hpends, -⟩
        · obtain ⟨b, hb⟩ := Kernel.serve_of_pends_none (k := t.state) htime
          rw [hb] at hserve
          cases hserve
          exact ⟨hrest b, Or.inl hidle⟩
        · rw [Kernel.serve_of_idle hpends hidle] at hserve
          cases hserve
          exact ⟨hwaits, Or.inr ⟨q, f, hprog, hpends, rfl, rfl, rfl, rfl⟩⟩
      · rw [hprog] at hprog'
        cases hprog'
        rw [Kernel.serve_of_pending hpends hblocked.inPend hblocked.pending] at hserve
        cases hserve

theorem noPost_go : NoPost w .go := fun _ h => nomatch h

theorem noPost_tick : NoPost w (.env .OSTimeTick) := by
  intro e' heq
  cases heq
  exact fun hposts => nomatch hposts

/-- A program that only reads the counter gets to its end. -/
theorem exists_end_of_reads (h : t.prog.OnlyCalls fun q => q.pends = none) :
    ∃ es t' r, RunBy ucos.step (fun _ => NoPost w) t es t' ∧ t'.prog = .ret r := by
  obtain ⟨p, k, log⟩ := t
  induction p generalizing log with
  | ret r => exact ⟨[], _, r, .refl _ _, rfl⟩
  | call q f ih =>
      obtain ⟨b, hb⟩ := Kernel.serve_of_pends_none (k := k) h.1
      obtain ⟨es, t', r, hrun, hret⟩ := ih b (log ++ [⟨q, b⟩]) (h.2 b)
      exact ⟨.go :: es, t', r, runBy_cons.mpr ⟨noPost_go, _, step_of_serve rfl hb, hrun⟩, hret⟩

/-- As many ticks as were asked for answer a pend. -/
theorem exists_answer_of_pend {q : OsCall} {f : q.Answer → Os α} (hn : n ≠ 0)
    (hprog : t.prog = .call q f) (hpends : q.pends = some (w, n)) (hidle : t.state.Idle w) :
    ∃ es t' b, RunBy ucos.step (fun _ => NoPost w) t es t' ∧ t'.prog = f b := by
  have hwait := Kernel.serve_of_idle hpends hidle
  generalize hk : t.state.OS_EventTaskWait w n = k at hwait
  have hready : (k.after (List.replicate n.toNat .OSTimeTick)).pending = false := by
    refine Kernel.ready_of_ticks fun _ => ?_
    rw [← hk, List.count_replicate_self]
    exact ⟨hn, Nat.le_refl _⟩
  have hin : (k.after (List.replicate n.toNat .OSTimeTick)).inPend = true := by
    rw [k.inPend_after, ← hk]
    rfl
  obtain ⟨b, k', hb⟩ := Kernel.serve_of_ready hpends hin hready
  have hticks := run_env (M := ucos) (t := t.answer q f (none, k))
    (List.replicate n.toNat .OSTimeTick)
  have hquiet : ∀ e ∈ (List.replicate n.toNat KernelEvent.OSTimeTick).map .env, NoPost w e := by
    simp only [List.map_replicate, List.mem_replicate]
    rintro e ⟨-, rfl⟩
    exact noPost_tick
  have hfirst := step_of_serve hprog hwait
  have hlast := step_of_serve (t := { t with state := k.after _ }) hprog hb
  have hend : RunBy ucos.step (fun _ => NoPost w) _ [.go] _ :=
    runBy_cons.mpr ⟨noPost_go, _, hlast, .refl _ _⟩
  have hrest := RunBy.trans ⟨hticks, (steps_iff_forall_mem hticks).mpr hquiet⟩ hend
  exact ⟨_, _, b, runBy_cons.mpr ⟨noPost_go, _, hfirst, hrest⟩, rfl⟩

/-- **Ticks are enough** for a wait with a count. -/
theorem exists_end_of_waits (hn : n ≠ 0) (hwaits : WaitsFor w n t.prog)
    (hidle : t.state.Idle w) :
    ∃ es t' r, RunBy ucos.step (fun _ => NoPost w) t es t' ∧ t'.prog = .ret r := by
  obtain ⟨p, k, log⟩ := t
  induction p generalizing log with
  | ret r => exact hwaits.elim
  | call q f ih =>
      rcases hwaits with ⟨htime, hrest⟩ | ⟨hpends, hreads⟩
      · obtain ⟨b, hb⟩ := Kernel.serve_of_pends_none (k := k) htime
        obtain ⟨es, t', r, hrun, hret⟩ := ih b (log ++ [⟨q, b⟩]) (hrest b) hidle
        exact ⟨.go :: es, t', r, runBy_cons.mpr ⟨noPost_go, _, step_of_serve rfl hb, hrun⟩, hret⟩
      · obtain ⟨es, t', b, hrun, hprog⟩ :=
          exists_answer_of_pend (t := ⟨.call q f, k, log⟩) hn rfl hpends hidle
        obtain ⟨fs, t'', r, hrun', hret⟩ :=
          exists_end_of_reads (w := w) (t := t') (by rw [hprog]; exact hreads b)
        exact ⟨es ++ fs, t'', r, hrun.trans hrun', hret⟩

/-- **A wait that nobody signals** ends exactly when it was given a count. -/
theorem waitsFor_ends_iff {s : Kernel} (hwaits : WaitsFor w n p) (hidle : s.Idle w) :
    (∃ es t r, RunBy ucos.step (fun _ => NoPost w) (.start p s) es t ∧ t.prog = .ret r) ↔
      n ≠ 0 := by
  constructor
  · rintro ⟨es, t, r, hrun, hret⟩ rfl
    have hstuck : Stuck w t := hrun.invariant (fun _ _ _ h he hstep => h.step he hstep)
      ⟨hwaits, Or.inl hidle⟩
    have hwait := hstuck.1
    rw [hret] at hwait
    exact hwait
  · exact fun hn => exists_end_of_waits hn hwaits hidle

end wait

/-! ## Time-outs -/

namespace Kernel

variable {k k' : Kernel} {e : KernelEvent} {n m : Nat}

/-- A wait for `n` ticks, after `m` of them at the most: its count, and its time-out. -/
structure Counts (n m : Nat) (k : Kernel) : Prop where
  left : k.pending = true → n ≤ k.OSTCBDly.toNat + m
  timeout : k.OSTCBStatPend = .OS_STAT_PEND_TO → n ≤ m

theorem Counts.tick (h : k.Counts n m) : k.OSTimeTick.Counts n (m + 1) := by
  have hleft := h.left
  have htimeout := h.timeout
  rcases k.OSTimeTick_cases with ⟨hdly, heq⟩ | ⟨hone, heq⟩ | ⟨dly, -, hcount, heq⟩
  · rw [heq]
    exact ⟨fun hp => Nat.le_succ_of_le (hleft hp), fun hto => Nat.le_succ_of_le (htimeout hto)⟩
  · rw [heq]
    refine ⟨fun hp => (nomatch hp), fun hto => ?_⟩
    by_cases hp : k.pending = true
    · have hle := hleft hp
      omega
    · rw [if_neg hp] at hto
      cases hto
  · rw [heq]
    refine ⟨fun hp => ?_, fun hto => Nat.le_succ_of_le (htimeout hto)⟩
    have hle := hleft hp
    show n ≤ dly.toNat + (m + 1)
    omega

theorem Counts.post (h : k.Counts n m) (he : e ≠ .OSTimeTick) : (ucos.env e k).Counts n m := by
  rcases env_post (k := k) he with ⟨-, pmsg, heq⟩ | ⟨-, q, c, heq, -⟩
  · rw [heq]
    exact ⟨fun hp => (nomatch hp), fun hto => nomatch hto⟩
  · rw [heq]
    exact ⟨h.left, h.timeout⟩

end Kernel

/-- A thread that waits for `n` ticks, after `m` of them at the most: no time-out was early. -/
structure Waited {α : Type} (n m : Nat) (t : Thread OsCall.Answer Kernel α) : Prop where
  prog : t.prog.OnlyCalls fun q => ∀ x, q.pends = some x → x.2.toNat = n
  counts : t.state.inPend = true → t.state.Counts n m
  log : ∀ c ∈ t.log, c.1.err c.2 = .OS_ERR_TIMEOUT → n ≤ m

section timeouts

variable {α : Type} {n m : Nat} {t t' : Thread OsCall.Answer Kernel α}

theorem Waited.step {e : Calls.Event KernelEvent} (h : Waited n m t)
    (hstep : ucos.step t e = some t') :
    Waited n (m + if e = .env .OSTimeTick then 1 else 0) t' := by
  cases e with
  | env e =>
      cases hstep
      by_cases htick : e = .OSTimeTick
      · subst htick
        rw [if_pos rfl]
        refine ⟨h.prog, fun hin => ?_, fun c hc hto => Nat.le_succ_of_le (h.log c hc hto)⟩
        exact (h.counts ((t.state.inPend_env .OSTimeTick).symm.trans hin)).tick
      · rw [if_neg fun heq => htick (Calls.Event.env.inj heq)]
        refine ⟨h.prog, fun hin => ?_, h.log⟩
        exact (h.counts ((t.state.inPend_env e).symm.trans hin)).post htick
  | go =>
      rw [if_neg (by simp), Nat.add_zero]
      obtain ⟨q, f, ans, k', hprog, hserve, rfl⟩ := step_go hstep
      have hcalls := h.prog
      rw [hprog] at hcalls
      obtain ⟨b, l, c, rfl, herr, rfl⟩ | ⟨b, pmsg, rfl, hin, hto, rfl⟩ |
        ⟨w, n', hpends, rfl, rfl⟩ := serve_cases hserve
      · refine ⟨hcalls.2 b, fun hin => ⟨(h.counts hin).left, (h.counts hin).timeout⟩, ?_⟩
        refine List.forall_mem_append.mpr ⟨h.log, List.forall_mem_singleton.mpr fun hto => ?_⟩
        exact absurd (herr.symm.trans hto) (by decide)
      · refine ⟨hcalls.2 b, fun hin' => (nomatch hin'), ?_⟩
        refine List.forall_mem_append.mpr ⟨h.log, List.forall_mem_singleton.mpr fun herr => ?_⟩
        exact (h.counts hin).timeout (hto herr)
      · refine ⟨h.prog, fun _ => ⟨fun _ => ?_, fun hto => nomatch hto⟩, h.log⟩
        have hcount : n'.toNat = n := hcalls.1 _ hpends
        show n ≤ n'.toNat + m
        omega

theorem Waited.run {es : List (Calls.Event KernelEvent)} (h : Waited n m t)
    (hrun : run ucos.step t es = some t') : Waited n (m + ticks es) t' := by
  induction es generalizing t m with
  | nil =>
      cases hrun
      exact h
  | cons e es ih =>
      obtain ⟨s, hstep, hrest⟩ := run_cons_eq_some.mp hrun
      have hlast := ih (h.step hstep) hrest
      rwa [Nat.add_assoc, Nat.add_comm _ (ticks es), ← ticks_cons] at hlast

/-- **A time-out is not early**: when a wait for `n` ticks has one, there were `n` ticks. -/
theorem ticks_of_timeout {p : Os α} {w : WaitList} {n : UInt32} {k : Kernel}
    {es : List (Calls.Event KernelEvent)} (hwaits : WaitsFor w n p) (hidle : k.inPend = false)
    (hrun : Run.run ucos.step (.start p k) es = some t') {c : Sigma OsCall.Answer}
    (hc : c ∈ t'.log) (hto : c.1.err c.2 = .OS_ERR_TIMEOUT) : n.toNat ≤ ticks es := by
  have hstart : Waited n.toNat 0 (.start p k) := by
    refine ⟨(calls_of_waitsFor hwaits).mono fun q hq x hx => by rw [hq x hx], ?_, ?_⟩
    · exact fun hin => absurd (hidle.symm.trans hin) Bool.false_ne_true
    · exact fun c hc => absurd hc List.not_mem_nil
  have hle := (hstart.run hrun).log c hc hto
  rwa [Nat.zero_add] at hle

end timeouts

end NetCamera
