import NetCamera.SysArch

/-!
# NetCamera.Timers

The timers of lwIP, and the fetch that runs them.

`next_timeout` holds each timer's time as the difference to the one before it.  What it
stands for is an `Agenda`: a clock, and the timers with the times they are due, in order
(`agenda_run_init`).  A message moves the clock by the time that its fetch reports, up to the
next timer (`turn_agenda`), so a report that is wrong calls timers early
(`expires_at_once`).
-/

namespace NetCamera

open Calls Run

variable {H : Type}

/-! ## Functions -/

/-- `struct sys_timeo`; the handler may be null. -/
structure SysTimeo (H : Type) where
  time : UInt32
  h : Option H
  arg : UInt32
  deriving DecidableEq, Repr

/-- The list, and what is left of `MEMP_SYS_TIMEOUT`. -/
structure Timeouts (H : Type) where
  next_timeout : List (SysTimeo H)
  free : Nat
  deriving Repr

def MEMP_NUM_SYS_TIMEOUT : Nat := 8

def Timeouts.init : Timeouts H := { next_timeout := [], free := MEMP_NUM_SYS_TIMEOUT }

/-- The loop of `sys_timeout`: the new timer behind the first, or further on. -/
def timeoutBehind (timeout : SysTimeo H) : List (SysTimeo H) → List (SysTimeo H)
  | [] => []
  | t :: rest =>
    let timeout := { timeout with time := timeout.time - t.time }
    match rest with
    | [] => [t, timeout]
    | next :: rest' =>
      if next.time > timeout.time then
        t :: timeout :: { next with time := next.time - timeout.time } :: rest'
      else t :: timeoutBehind timeout rest

/-- The list with the new timer. -/
def link (timeout : SysTimeo H) : List (SysTimeo H) → List (SysTimeo H)
  | [] => [timeout]
  | t :: rest =>
    if t.time > timeout.time then timeout :: { t with time := t.time - timeout.time } :: rest
    else timeoutBehind timeout (t :: rest)

def sys_timeout (msecs : UInt32) (handler : Option H) (arg : UInt32) (s : Timeouts H) :
    Timeouts H :=
  if s.free = 0 then s
  else { next_timeout := link ⟨msecs, handler, arg⟩ s.next_timeout, free := s.free - 1 }

/-- The time of a timer that is taken out goes back to the next. -/
def addBack (time : UInt32) : List (SysTimeo H) → List (SysTimeo H)
  | [] => []
  | next :: rest => { next with time := next.time + time } :: rest

/-- The loop of `sys_untimeout`; `none` where nothing matches. -/
def unlink [DecidableEq H] (handler : Option H) (arg : UInt32) :
    List (SysTimeo H) → Option (List (SysTimeo H))
  | [] => none
  | t :: rest =>
    if t.h = handler ∧ t.arg = arg then some (addBack t.time rest)
    else (unlink handler arg rest).map (t :: ·)

def sys_untimeout [DecidableEq H] (handler : Option H) (arg : UInt32) (s : Timeouts H) :
    Timeouts H :=
  match unlink handler arg s.next_timeout with
  | none => s
  | some l => { next_timeout := l, free := s.free + 1 }

/-- A message was there before the first timer was due. -/
def Timeouts.received (time_needed : UInt32) (s : Timeouts H) : Timeouts H :=
  match s.next_timeout with
  | [] => s
  | t :: rest =>
    let t := if time_needed < t.time then { t with time := t.time - time_needed }
      else { t with time := 0 }
    { s with next_timeout := t :: rest }

/-- How a turn of `sys_timeouts_mbox_fetch` ends: it returns, or it calls a handler and goes
again. -/
inductive Turn (H : Type) where
  | received (msg : Option UInt32)
  | expired (handler : Option H) (arg : UInt32)
  deriving DecidableEq, Repr

/-- A wait until the first timer is due, if it is not due already. -/
def fetchUntil (pvNullPointer : UInt32) (msg : Bool) (tmptimeout : SysTimeo H) :
    Os (UInt32 × Option UInt32) :=
  if tmptimeout.time > 0 then sys_arch_mbox_fetch pvNullPointer msg tmptimeout.time
  else return (SYS_ARCH_TIMEOUT, none)

/-- A turn, from `again` on. -/
def sys_timeouts_mbox_fetch (pvNullPointer : UInt32) (msg : Bool) (s : Timeouts H) :
    Os (Turn H × Timeouts H) :=
  match s.next_timeout with
  | [] => do
    let (_, msg) ← sys_arch_mbox_fetch pvNullPointer msg 0
    return (.received msg, s)
  | tmptimeout :: rest => do
    let (time_needed, msg) ← fetchUntil pvNullPointer msg tmptimeout
    if time_needed = SYS_ARCH_TIMEOUT then
      return (.expired tmptimeout.h tmptimeout.arg, { next_timeout := rest, free := s.free + 1 })
    else return (.received msg, s.received time_needed)

/-- What happens to the timers. -/
inductive TimerOp (H : Type) where
  | sys_timeout (msecs : UInt32) (handler : Option H) (arg : UInt32)
  | sys_untimeout (handler : Option H) (arg : UInt32)
  | received (time_needed : UInt32)
  | expired
  deriving DecidableEq, Repr

def Timeouts.step [DecidableEq H] (s : Timeouts H) : TimerOp H → Option (Timeouts H)
  | .sys_timeout msecs handler arg => some (NetCamera.sys_timeout msecs handler arg s)
  | .sys_untimeout handler arg => some (NetCamera.sys_untimeout handler arg s)
  | .received time_needed => some (s.received time_needed)
  | .expired =>
    match s.next_timeout with
    | [] => none
    | _ :: rest => some { next_timeout := rest, free := s.free + 1 }

/-! ## The agenda -/

/-- A timer and when it is due. -/
structure Due (H : Type) where
  due : Nat
  h : Option H
  arg : UInt32
  deriving DecidableEq, Repr

/-- Behind those that are due no later. -/
def Due.schedule (d : Due H) : List (Due H) → List (Due H)
  | [] => [d]
  | e :: l => if d.due < e.due then d :: e :: l else e :: d.schedule l

theorem Due.mem_schedule {d e : Due H} {l : List (Due H)} :
    e ∈ d.schedule l ↔ e = d ∨ e ∈ l := by
  induction l with
  | nil => simp [schedule]
  | cons f l ih =>
      simp only [schedule]
      split
      · rw [List.mem_cons]
      · rw [List.mem_cons, ih, List.mem_cons]
        exact or_left_comm

theorem Due.pairwise_schedule {d : Due H} {l : List (Due H)}
    (h : l.Pairwise fun d e => d.due ≤ e.due) :
    (d.schedule l).Pairwise fun d e => d.due ≤ e.due := by
  induction l with
  | nil => exact List.pairwise_singleton _ _
  | cons f l ih =>
      obtain ⟨hf, hl⟩ := List.pairwise_cons.mp h
      simp only [schedule]
      split
      · next hlt =>
          refine List.pairwise_cons.mpr ⟨List.forall_mem_cons.mpr ⟨Nat.le_of_lt hlt, ?_⟩, h⟩
          exact fun e he => Nat.le_trans (Nat.le_of_lt hlt) (hf e he)
      · next hge =>
          refine List.pairwise_cons.mpr ⟨fun e he => ?_, ih hl⟩
          obtain rfl | he := mem_schedule.mp he
          · exact Nat.le_of_not_lt hge
          · exact hf e he

theorem Due.length_schedule {d : Due H} {l : List (Due H)} :
    (d.schedule l).length = l.length + 1 := by
  induction l with
  | nil => rfl
  | cons f l ih =>
      simp only [schedule]
      split
      · rfl
      · rw [List.length_cons, ih, List.length_cons]

/-- A clock, and timers in the order in which they are due, none of them before now. -/
@[ext]
structure Agenda (H : Type) where
  now : Nat
  timers : List (Due H)
  sorted : timers.Pairwise fun d e => d.due ≤ e.due
  notBefore : ∀ d ∈ timers, now ≤ d.due

namespace Agenda

/-- A new timer, while there are fewer than `cap`. -/
def schedule (cap msecs : Nat) (h : Option H) (arg : UInt32) (A : Agenda H) : Agenda H :=
  if A.timers.length < cap then
    { now := A.now
      timers := Due.schedule ⟨A.now + msecs, h, arg⟩ A.timers
      sorted := Due.pairwise_schedule A.sorted
      notBefore := fun d hd => by
        obtain rfl | hd := Due.mem_schedule.mp hd
        · exact Nat.le_add_right _ _
        · exact A.notBefore d hd }
  else A

theorem now_schedule (cap msecs : Nat) (h : Option H) (arg : UInt32) (A : Agenda H) :
    (A.schedule cap msecs h arg).now = A.now := by
  rw [schedule]
  split <;> rfl

/-- The first timer with this handler and argument is taken out. -/
def cancel [DecidableEq H] (h : Option H) (arg : UInt32) (A : Agenda H) : Agenda H where
  now := A.now
  timers := A.timers.eraseP fun d => d.h = h ∧ d.arg = arg
  sorted := A.sorted.sublist List.eraseP_sublist
  notBefore := fun d hd => A.notBefore d (List.mem_of_mem_eraseP hd)

/-- The clock goes on, up to the next timer; without one it stands. -/
def pass (ms : Nat) (A : Agenda H) : Agenda H where
  now :=
    match A.timers with
    | [] => A.now
    | d :: _ => min (A.now + ms) d.due
  timers := A.timers
  sorted := A.sorted
  notBefore := by
    intro d hd
    have hsorted := A.sorted
    cases htimers : A.timers with
    | nil => exact absurd (htimers ▸ hd) List.not_mem_nil
    | cons e l =>
        rw [htimers] at hd hsorted
        obtain rfl | hd := List.mem_cons.mp hd
        · exact Nat.min_le_right _ _
        · exact Nat.le_trans (Nat.min_le_right _ _) ((List.pairwise_cons.mp hsorted).1 d hd)

/-- The next timer is called, when it is due. -/
def expire (A : Agenda H) : Agenda H :=
  match A with
  | ⟨now, [], sorted, notBefore⟩ => ⟨now, [], sorted, notBefore⟩
  | ⟨_, d :: l, sorted, _⟩ =>
    ⟨d.due, l, (List.pairwise_cons.mp sorted).2, (List.pairwise_cons.mp sorted).1⟩

theorem expire_of_cons {A : Agenda H} {d : Due H} {l : List (Due H)} (h : A.timers = d :: l) :
    A.expire.now = d.due ∧ A.expire.timers = l := by
  obtain ⟨now, timers, sorted, notBefore⟩ := A
  cases h
  exact ⟨rfl, rfl⟩

def step [DecidableEq H] (cap : Nat) (A : Agenda H) : TimerOp H → Agenda H
  | .sys_timeout msecs handler arg => A.schedule cap msecs.toNat handler arg
  | .sys_untimeout handler arg => A.cancel handler arg
  | .received time_needed => A.pass time_needed.toNat
  | .expired => A.expire

theorem le_now_pass (ms : Nat) (A : Agenda H) : A.now ≤ (A.pass ms).now := by
  obtain ⟨now, timers, sorted, notBefore⟩ := A
  cases timers with
  | nil => exact Nat.le_refl _
  | cons d l => exact Nat.le_min.mpr ⟨Nat.le_add_right _ _, notBefore d List.mem_cons_self⟩

/-- No timer is due later than a time can say. -/
def Bounded (A : Agenda H) : Prop := ∀ d ∈ A.timers, d.due < A.now + 4294967296

theorem Bounded.step [DecidableEq H] {cap : Nat} {A : Agenda H} (h : A.Bounded) (op : TimerOp H) :
    (A.step cap op).Bounded := by
  cases op with
  | sys_timeout msecs handler arg =>
      show (A.schedule cap msecs.toNat handler arg).Bounded
      rw [schedule]
      split
      · intro d hd
        obtain rfl | hd := Due.mem_schedule.mp hd
        · exact Nat.add_lt_add_left msecs.toNat_lt A.now
        · exact h d hd
      · exact h
  | sys_untimeout handler arg => exact fun d hd => h d (List.mem_of_mem_eraseP hd)
  | received time_needed =>
      intro d hd
      have hnow := le_now_pass time_needed.toNat A
      have hdue := h d hd
      show d.due < (A.pass time_needed.toNat).now + 4294967296
      omega
  | expired =>
      obtain ⟨now, timers, sorted, notBefore⟩ := A
      cases timers with
      | nil => exact h
      | cons e l =>
          obtain ⟨-, hl⟩ := List.forall_mem_cons.mp h
          have hnow : now ≤ e.due := notBefore e List.mem_cons_self
          intro d hd
          have hdue : d.due < now + 4294967296 := hl d hd
          show d.due < e.due + 4294967296
          omega

end Agenda

/-! ## What the list stands for -/

/-- The timers behind one that is due at `base`. -/
def agendaFrom (base : Nat) : List (SysTimeo H) → List (Due H)
  | [] => []
  | t :: rest =>
    ⟨base + t.time.toNat, t.h, t.arg⟩ :: agendaFrom (base + t.time.toNat) rest

theorem le_of_mem_agendaFrom {base : Nat} {l : List (SysTimeo H)} {d : Due H}
    (hd : d ∈ agendaFrom base l) : base ≤ d.due := by
  induction l generalizing base with
  | nil => exact absurd hd List.not_mem_nil
  | cons t rest ih =>
      obtain rfl | hd := List.mem_cons.mp hd
      · exact Nat.le_add_right _ _
      · exact Nat.le_trans (Nat.le_add_right _ _) (ih hd)

theorem pairwise_agendaFrom (base : Nat) (l : List (SysTimeo H)) :
    (agendaFrom base l).Pairwise fun d e => d.due ≤ e.due := by
  induction l generalizing base with
  | nil => exact List.Pairwise.nil
  | cons t rest ih => exact List.pairwise_cons.mpr ⟨fun _ he => le_of_mem_agendaFrom he, ih _⟩

theorem length_agendaFrom (base : Nat) (l : List (SysTimeo H)) :
    (agendaFrom base l).length = l.length := by
  induction l generalizing base with
  | nil => rfl
  | cons t rest ih => exact congrArg Nat.succ (ih _)

/-- The agenda when the clock is at `now`. -/
def Timeouts.agenda (now : Nat) (s : Timeouts H) : Agenda H where
  now := now
  timers := agendaFrom now s.next_timeout
  sorted := pairwise_agendaFrom _ _
  notBefore := fun _ hd => le_of_mem_agendaFrom hd

/-- Times that were subtracted add up again. -/
theorem toNat_add_sub {t d : UInt32} (h : t ≤ d) (base : Nat) :
    base + t.toNat + (d - t).toNat = base + d.toNat := by
  rw [UInt32.toNat_sub_of_le _ _ h, Nat.add_assoc,
    Nat.add_sub_cancel' (UInt32.le_iff_toNat_le.mp h)]

/-- A new timer in front of one that is due later. -/
theorem agendaFrom_before {base : Nat} {d t : SysTimeo H} {rest : List (SysTimeo H)}
    (h : d.time < t.time) :
    agendaFrom base (d :: { t with time := t.time - d.time } :: rest) =
      Due.schedule ⟨base + d.time.toNat, d.h, d.arg⟩ (agendaFrom base (t :: rest)) := by
  have hlt := UInt32.lt_iff_toNat_lt.mp h
  simp only [agendaFrom, Due.schedule, toNat_add_sub (UInt32.le_of_lt h),
    if_pos (Nat.add_lt_add_left hlt base)]

/-- **The loop of `sys_timeout`** puts the timer behind those that are due no later. -/
theorem agendaFrom_timeoutBehind {base : Nat} {d t : SysTimeo H} {rest : List (SysTimeo H)}
    (h : t.time ≤ d.time) :
    agendaFrom base (timeoutBehind d (t :: rest)) =
      Due.schedule ⟨base + d.time.toNat, d.h, d.arg⟩ (agendaFrom base (t :: rest)) := by
  induction rest generalizing base d t with
  | nil =>
      have hle := UInt32.le_iff_toNat_le.mp h
      simp only [timeoutBehind, agendaFrom, Due.schedule, toNat_add_sub h,
        if_neg (Nat.not_lt.mpr (Nat.add_le_add_left hle base))]
  | cons next rest ih =>
      have hle := UInt32.le_iff_toNat_le.mp h
      have hnot := Nat.not_lt.mpr (Nat.add_le_add_left hle base)
      rw [timeoutBehind, agendaFrom, Due.schedule, if_neg hnot]
      split
      · next hlt =>
          rw [agendaFrom, agendaFrom_before (d := { d with time := d.time - t.time }) hlt,
            toNat_add_sub h]
      · next hge =>
          rw [agendaFrom, ih (d := { d with time := d.time - t.time }) (UInt32.not_lt.mp hge),
            toNat_add_sub h]

theorem agendaFrom_link (base : Nat) (d : SysTimeo H) (l : List (SysTimeo H)) :
    agendaFrom base (link d l) =
      Due.schedule ⟨base + d.time.toNat, d.h, d.arg⟩ (agendaFrom base l) := by
  cases l with
  | nil => rfl
  | cons t rest =>
      rw [link]
      split
      · next hlt => exact agendaFrom_before hlt
      · next hge => exact agendaFrom_timeoutBehind (UInt32.not_lt.mp hge)

/-- A time that is added back leaves the others where they are, as long as it can be said. -/
theorem agendaFrom_addBack {now base : Nat} {time : UInt32} {l : List (SysTimeo H)}
    (hnow : now ≤ base)
    (hbound : ∀ d ∈ agendaFrom (base + time.toNat) l, d.due < now + 4294967296) :
    agendaFrom base (addBack time l) = agendaFrom (base + time.toNat) l := by
  cases l with
  | nil => rfl
  | cons next rest =>
      have hdue : base + time.toNat + next.time.toNat < now + 4294967296 :=
        hbound _ List.mem_cons_self
      have hsum : (next.time + time).toNat = next.time.toNat + time.toNat := by
        rw [UInt32.toNat_add]
        exact Nat.mod_eq_of_lt (show _ < 4294967296 by omega)
      have hback : base + (next.time.toNat + time.toNat) =
          base + time.toNat + next.time.toNat := by omega
      simp only [addBack, agendaFrom, hsum, hback]

/-- **The loop of `sys_untimeout`** takes out the first that matches. -/
theorem agendaFrom_unlink [DecidableEq H] {handler : Option H} {arg : UInt32} {now base : Nat}
    {l : List (SysTimeo H)} (hnow : now ≤ base)
    (hbound : ∀ d ∈ agendaFrom base l, d.due < now + 4294967296) :
    agendaFrom base ((unlink handler arg l).getD l) =
      (agendaFrom base l).eraseP fun d => d.h = handler ∧ d.arg = arg := by
  induction l generalizing base with
  | nil => rfl
  | cons t rest ih =>
      obtain ⟨-, hrest⟩ := List.forall_mem_cons.mp hbound
      rw [unlink, agendaFrom]
      split
      · next hmatch =>
          rw [List.eraseP_cons_of_pos (by simpa using hmatch)]
          exact agendaFrom_addBack hnow hrest
      · next hother =>
          rw [List.eraseP_cons_of_neg (by simpa using hother),
            ← ih (Nat.le_add_right_of_le hnow) hrest]
          cases unlink handler arg rest with
          | none => rfl
          | some l' => rfl

theorem length_of_unlink [DecidableEq H] {handler : Option H} {arg : UInt32}
    {l l' : List (SysTimeo H)} (h : unlink handler arg l = some l') :
    l'.length + 1 = l.length := by
  induction l generalizing l' with
  | nil => cases h
  | cons t rest ih =>
      rw [unlink] at h
      split at h
      · cases h
        cases rest <;> rfl
      · obtain ⟨m, hm, rfl⟩ := Option.map_eq_some_iff.mp h
        exact congrArg Nat.succ (ih hm)

/-- Time that passes for the first timer passes for all. -/
theorem agendaFrom_received {base : Nat} {w : UInt32} {t : SysTimeo H} {rest : List (SysTimeo H)} :
    agendaFrom (min (base + w.toNat) (base + t.time.toNat))
      ((if w < t.time then { t with time := t.time - w } else { t with time := 0 }) :: rest) =
    agendaFrom base (t :: rest) := by
  split
  · next hlt =>
      have hle := Nat.add_le_add_left (Nat.le_of_lt (UInt32.lt_iff_toNat_lt.mp hlt)) base
      simp only [agendaFrom, Nat.min_eq_left hle, toNat_add_sub (UInt32.le_of_lt hlt)]
  · next hge =>
      have hle := Nat.add_le_add_left (UInt32.le_iff_toNat_le.mp (UInt32.not_lt.mp hge)) base
      simp only [agendaFrom, Nat.min_eq_right hle]
      rfl

/-! ## Runs -/

/-- The entries of the pool are on the list or free, and no timer is due later than it can say. -/
structure Timeouts.Kept (cap now : Nat) (s : Timeouts H) : Prop where
  pool : s.free + s.next_timeout.length = cap
  bounded : (s.agenda now).Bounded

theorem agenda_sys_timeout {cap now : Nat} {s : Timeouts H} {msecs : UInt32} {handler : Option H}
    {arg : UInt32} (h : s.Kept cap now) : (sys_timeout msecs handler arg s).agenda now =
      (s.agenda now).schedule cap msecs.toNat handler arg := by
  have hpool := h.pool
  have hlength := length_agendaFrom now s.next_timeout
  refine Agenda.ext (Agenda.now_schedule cap _ _ _ (s.agenda now)).symm ?_
  simp only [Agenda.schedule, Timeouts.agenda, sys_timeout, hlength]
  by_cases hfree : s.free = 0
  · rw [if_pos hfree, if_neg (by omega)]
  · rw [if_neg hfree, if_pos (by omega)]
    exact agendaFrom_link now ⟨msecs, handler, arg⟩ s.next_timeout

theorem agenda_received (now : Nat) (s : Timeouts H) (w : UInt32) :
    (s.received w).agenda ((s.agenda now).pass w.toNat).now = (s.agenda now).pass w.toNat := by
  obtain ⟨timers, free⟩ := s
  refine Agenda.ext rfl ?_
  cases timers with
  | nil => rfl
  | cons t rest => exact agendaFrom_received

section step

variable [DecidableEq H] {cap now : Nat} {s s' : Timeouts H} {op : TimerOp H}

theorem agenda_sys_untimeout {handler : Option H} {arg : UInt32} (h : s.Kept cap now) :
    (sys_untimeout handler arg s).agenda now = (s.agenda now).cancel handler arg := by
  have hunlink : agendaFrom now ((unlink handler arg s.next_timeout).getD s.next_timeout) = _ :=
    agendaFrom_unlink (Nat.le_refl now) h.bounded
  refine Agenda.ext rfl ?_
  simp only [Agenda.cancel, Timeouts.agenda, sys_untimeout]
  rw [← hunlink]
  cases unlink handler arg s.next_timeout with
  | none => rfl
  | some l => rfl

/-- **One step** of the list is a step of the agenda. -/
theorem agenda_step (h : s.Kept cap now) (hstep : s.step op = some s') :
    s'.agenda ((s.agenda now).step cap op).now = (s.agenda now).step cap op := by
  cases op with
  | sys_timeout msecs handler arg =>
      cases hstep
      rw [Agenda.step, Agenda.now_schedule]
      exact agenda_sys_timeout h
  | sys_untimeout handler arg =>
      cases hstep
      exact agenda_sys_untimeout h
  | received time_needed =>
      cases hstep
      exact agenda_received now s time_needed
  | expired =>
      obtain ⟨timers, free⟩ := s
      cases timers with
      | nil => cases hstep
      | cons t rest =>
          cases hstep
          rfl

/-- No entry of the pool is lost. -/
theorem pool_step (hstep : s.step op = some s') :
    s'.free + s'.next_timeout.length = s.free + s.next_timeout.length := by
  cases op with
  | sys_timeout msecs handler arg =>
      cases hstep
      have hlength : (link ⟨msecs, handler, arg⟩ s.next_timeout).length =
          s.next_timeout.length + 1 := by
        rw [← length_agendaFrom 0, agendaFrom_link, Due.length_schedule, length_agendaFrom]
      rw [sys_timeout]
      split
      · rfl
      · next hfree =>
          show s.free - 1 + (link ⟨msecs, handler, arg⟩ s.next_timeout).length = _
          omega
  | sys_untimeout handler arg =>
      cases hstep
      rw [sys_untimeout]
      split
      · rfl
      · next l hl =>
          have hlength := length_of_unlink hl
          show s.free + 1 + l.length = _
          omega
  | received time_needed =>
      cases hstep
      obtain ⟨timers, free⟩ := s
      cases timers <;> rfl
  | expired =>
      obtain ⟨timers, free⟩ := s
      cases timers with
      | nil => cases hstep
      | cons t rest =>
          cases hstep
          show free + 1 + rest.length = free + (rest.length + 1)
          omega

theorem Timeouts.Kept.step (h : s.Kept cap now) (hstep : s.step op = some s') :
    s'.Kept cap ((s.agenda now).step cap op).now where
  pool := (pool_step hstep).trans h.pool
  bounded := by
    rw [agenda_step h hstep]
    exact h.bounded.step op

/-- **Over every run** the list stands for the agenda that the same steps make. -/
theorem agenda_run {ops : List (TimerOp H)} (h : s.Kept cap now)
    (hrun : run Timeouts.step s ops = some s') :
    s'.agenda (ops.foldl (Agenda.step cap) (s.agenda now)).now =
      ops.foldl (Agenda.step cap) (s.agenda now) := by
  induction ops generalizing s now with
  | nil =>
      cases hrun
      rfl
  | cons op ops ih =>
      obtain ⟨t, hstep, hrest⟩ := run_cons_eq_some.mp hrun
      have hagenda := ih (h.step hstep) hrest
      rw [agenda_step h hstep] at hagenda
      exact hagenda

/-- **The list of differences is an agenda**: in every run from a list without timers it stands for
the one that the same steps make. -/
theorem agenda_run_init {ops : List (TimerOp H)}
    (hrun : run Timeouts.step Timeouts.init ops = some s') :
    let A := ops.foldl (Agenda.step MEMP_NUM_SYS_TIMEOUT) (Timeouts.init.agenda 0)
    s'.agenda A.now = A :=
  agenda_run ⟨rfl, List.forall_mem_nil _⟩ hrun

/-- Two timers, the second due first; then 50 ms pass, and it is called. -/
def twoTimers : List (TimerOp Bool) :=
  [.sys_timeout 250 (some true) 0, .sys_timeout 100 (some false) 0, .received 50, .expired]

theorem agenda_run_init_two :
    let A := twoTimers.foldl (Agenda.step MEMP_NUM_SYS_TIMEOUT) (Timeouts.init.agenda 0)
    (⟨[⟨150, some true, 0⟩], 7⟩ : Timeouts Bool).agenda A.now = A :=
  agenda_run_init rfl

end step

/-! ## Turns -/

section turns

variable {pvNullPointer t0 t1 n temp : UInt32} {msg : Bool} {s : Timeouts H} {t : SysTimeo H}
  {rest : List (SysTimeo H)} {r : Turn H × Timeouts H}

/-- A wait for the first timer that is not over before: what it reports is made of two counts. -/
theorem runs_fetchUntil {cs : Answers OsCall.Answer} {r : UInt32 × Option UInt32}
    (h : Runs (fetchUntil pvNullPointer msg t) cs r) (hmessage : r.1 ≠ SYS_ARCH_TIMEOUT) :
    ∃ t0 pend t1, cs = [⟨.OSTimeGet, t0⟩, pend, ⟨.OSTimeGet, t1⟩] ∧ r.1 = mboxWaited t0 t1 := by
  rw [fetchUntil] at h
  split at h
  · obtain ⟨t0, temp, ucErr, tail, rfl, hreport⟩ := runs_fetch h
    obtain ⟨hmark, -⟩ | ⟨t1, rfl, hwaited⟩ := hreport
    · exact absurd hmark hmessage
    · exact ⟨t0, _, t1, rfl, hwaited⟩
  · obtain ⟨-, rfl⟩ := h
    exact absurd rfl hmessage

/-- **A turn is a step of the timers**: a message moves them by the time that its fetch reports,
and else the first is called. -/
theorem runs_turn [DecidableEq H] {cs : Answers OsCall.Answer}
    (h : Runs (sys_timeouts_mbox_fetch pvNullPointer msg s) cs r) :
    (∃ m w, r.1 = .received m ∧ s.step (.received w) = some r.2 ∧
      (s.next_timeout ≠ [] → ∃ t0 pend t1,
        cs = [⟨.OSTimeGet, t0⟩, pend, ⟨.OSTimeGet, t1⟩] ∧ w = mboxWaited t0 t1)) ∨
    ∃ t rest, s.next_timeout = t :: rest ∧ r.1 = .expired t.h t.arg ∧
      s.step .expired = some r.2 := by
  obtain ⟨timers, free⟩ := s
  cases timers with
  | nil =>
      obtain ⟨as, bs, m, rfl, hfetch, rfl, rfl⟩ := runs_bind.mp h
      exact Or.inl ⟨m.2, 0, rfl, rfl, fun hne => absurd rfl hne⟩
  | cons t rest =>
      obtain ⟨as, bs, ⟨time_needed, m⟩, rfl, hfetch, hend⟩ := runs_bind.mp h
      by_cases htimeout : time_needed = SYS_ARCH_TIMEOUT
      · simp only [if_pos htimeout] at hend
        obtain ⟨rfl, rfl⟩ := hend
        exact Or.inr ⟨t, rest, rfl, rfl, rfl⟩
      · simp only [if_neg htimeout] at hend
        obtain ⟨rfl, rfl⟩ := hend
        refine Or.inl ⟨m, time_needed, rfl, rfl, fun _ => ?_⟩
        rw [List.append_nil]
        exact runs_fetchUntil hfetch htimeout

/-- A turn that is given a message. -/
theorem runs_turn_message (htimers : s.next_timeout = t :: rest) (hpos : t.time > 0)
    (h : Runs (sys_timeouts_mbox_fetch pvNullPointer msg s)
      [⟨.OSTimeGet, t0⟩, ⟨.OSQPend n, (temp, .OS_ERR_NONE)⟩, ⟨.OSTimeGet, t1⟩] r) :
    r = (.received (msgOut pvNullPointer msg temp), s.received (mboxWaited t0 t1)) := by
  obtain ⟨timers, free⟩ := s
  cases htimers
  obtain ⟨as, bs, ⟨time_needed, m⟩, heq, hfetch, hend⟩ := runs_bind.mp h
  have hreport : bs = [] →
      (time_needed, m) = (mboxWaited t0 t1, msgOut pvNullPointer msg temp) := by
    rintro rfl
    rw [List.append_nil] at heq
    rw [← heq, fetchUntil, if_pos hpos] at hfetch
    exact (runs_fetch_message.mp hfetch).2
  by_cases htimeout : time_needed = SYS_ARCH_TIMEOUT
  · simp only [if_pos htimeout] at hend
    have hwaited := (Prod.mk.inj (hreport hend.1)).1
    exact absurd (hwaited.symm.trans htimeout) (mboxWaited_ne_timeout t0 t1)
  · simp only [if_neg htimeout] at hend
    obtain ⟨hnil, rfl⟩ := hend
    obtain ⟨rfl, rfl⟩ := Prod.mk.inj (hreport hnil)
    rfl

/-- A turn whose first timer is due. -/
theorem runs_turn_due (htimers : s.next_timeout = t :: rest) (hdue : t.time = 0) :
    Runs (sys_timeouts_mbox_fetch pvNullPointer msg s) []
      (.expired t.h t.arg, { next_timeout := rest, free := s.free + 1 }) := by
  obtain ⟨timers, free⟩ := s
  cases htimers
  refine runs_bind.mpr ⟨[], [], (SYS_ARCH_TIMEOUT, none), rfl, ?_, rfl, rfl⟩
  rw [fetchUntil, hdue]
  exact ⟨rfl, rfl⟩

/-- The first timer after a report. -/
theorem next_timeout_received (htimers : s.next_timeout = t :: rest) (w : UInt32) :
    ∃ time : UInt32, (s.received w).next_timeout = { t with time := time } :: rest ∧
      (s.received w).free = s.free ∧ time.toNat = t.time.toNat - w.toNat := by
  rw [Timeouts.received, htimers]
  dsimp only
  split
  · next hlt => exact ⟨_, rfl, rfl, UInt32.toNat_sub_of_le _ _ (UInt32.le_of_lt hlt)⟩
  · next hge =>
      have hle := UInt32.le_iff_toNat_le.mp (UInt32.not_lt.mp hge)
      exact ⟨0, rfl, rfl, (Nat.sub_eq_zero_of_le hle).symm⟩

/-- **A turn is a step of the agenda**, in every state of every run: a message moves the clock by
the time that its fetch reports, and else the earliest timer is called, with the clock at the time
it is due. -/
theorem turn_agenda [DecidableEq H] {ops : List (TimerOp H)}
    (hrun : run Timeouts.step Timeouts.init ops = some s) {cs : Answers OsCall.Answer}
    (h : Runs (sys_timeouts_mbox_fetch pvNullPointer msg s) cs r) :
    let A := ops.foldl (Agenda.step MEMP_NUM_SYS_TIMEOUT) (Timeouts.init.agenda 0)
    (∃ m w, r.1 = .received m ∧ r.2.agenda (A.pass w.toNat).now = A.pass w.toNat ∧
      (A.timers ≠ [] → ∃ t0 pend t1,
        cs = [⟨.OSTimeGet, t0⟩, pend, ⟨.OSTimeGet, t1⟩] ∧ w = mboxWaited t0 t1)) ∨
    ∃ d l, A.timers = d :: l ∧ r.1 = .expired d.h d.arg ∧
      A.expire.now = d.due ∧ A.expire.timers = l ∧ r.2.agenda d.due = A.expire := by
  intro A
  have hkept : (Timeouts.init : Timeouts H).Kept MEMP_NUM_SYS_TIMEOUT 0 :=
    ⟨rfl, List.forall_mem_nil _⟩
  have hagenda : s.agenda A.now = A := agenda_run hkept hrun
  have hturn : ∀ op, s.step op = some r.2 →
      r.2.agenda (A.step MEMP_NUM_SYS_TIMEOUT op).now = A.step MEMP_NUM_SYS_TIMEOUT op := by
    intro op hop
    have hlong : run Timeouts.step Timeouts.init (ops ++ [op]) = some r.2 := by
      rw [run_append, hrun, Option.bind_some, run_cons, hop]
      rfl
    have hlast := agenda_run hkept hlong
    rwa [List.foldl_append] at hlast
  have htimers : A.timers = agendaFrom A.now s.next_timeout :=
    (congrArg Agenda.timers hagenda).symm
  obtain ⟨m, w, hr, hstep, hwaited⟩ | ⟨t, rest, hlist, hr, hstep⟩ := runs_turn h
  · refine Or.inl ⟨m, w, hr, hturn _ hstep, fun hne => hwaited fun hnil => hne ?_⟩
    rw [htimers, hnil]
    rfl
  · have hfirst : A.timers = ⟨A.now + t.time.toNat, t.h, t.arg⟩ ::
        agendaFrom (A.now + t.time.toNat) rest := by
      rw [htimers, hlist]
      rfl
    have hexpire := Agenda.expire_of_cons hfirst
    refine Or.inr ⟨_, _, hfirst, hr, hexpire.1, hexpire.2, ?_⟩
    rw [← hexpire.1]
    exact hturn .expired hstep

/-- Two timers, the earlier one due in 100 ms. -/
def ahead : Timeouts Bool := ⟨[⟨100, some false, 0⟩, ⟨150, some true, 0⟩], 6⟩

/-- A message within 40 ticks. -/
def answers40 : Answers OsCall.Answer :=
  [⟨.OSTimeGet, 1000⟩, ⟨.OSQPend 100, (7, .OS_ERR_NONE)⟩, ⟨.OSTimeGet, 1040⟩]

theorem turn_agenda_message :
    let A := (twoTimers.take 2).foldl (Agenda.step MEMP_NUM_SYS_TIMEOUT) (Timeouts.init.agenda 0)
    let r : Turn Bool × Timeouts Bool := (.received (some 7), ahead.received 41)
    (∃ m w, r.1 = .received m ∧ r.2.agenda (A.pass w.toNat).now = A.pass w.toNat ∧
      (A.timers ≠ [] → ∃ t0 pend t1,
        answers40 = [⟨.OSTimeGet, t0⟩, pend, ⟨.OSTimeGet, t1⟩] ∧ w = mboxWaited t0 t1)) ∨
    ∃ d l, A.timers = d :: l ∧ r.1 = .expired d.h d.arg ∧
      A.expire.now = d.due ∧ A.expire.timers = l ∧ r.2.agenda d.due = A.expire := by
  have hfetch : Runs (sys_arch_mbox_fetch 0 true 100) answers40 (41, some 7) :=
    runs_fetch_message.mpr ⟨by decide, by decide⟩
  have hturn : Runs (sys_timeouts_mbox_fetch 0 true ahead) answers40
      (.received (some 7), ahead.received 41) :=
    runs_bind.mpr ⟨answers40, [], (41, some 7), rfl, hfetch, rfl, rfl⟩
  have hrun : run Timeouts.step Timeouts.init (twoTimers.take 2) = some ahead := rfl
  exact turn_agenda hrun hturn

/-- **A message that is already there** lets the next turn call the first timer at once, however
long it has to go, up to an hour: the tick counter stands still, which a fetch reports wrong. -/
theorem expires_at_once (htimers : s.next_timeout = t :: rest) (hpos : t.time > 0)
    (h : Runs (sys_timeouts_mbox_fetch pvNullPointer msg s)
      [⟨.OSTimeGet, t0⟩, ⟨.OSQPend n, (temp, .OS_ERR_NONE)⟩, ⟨.OSTimeGet, t0⟩] r)
    (hhour : t.time.toNat ≤ 4294967) :
    Runs (sys_timeouts_mbox_fetch pvNullPointer msg r.2) []
      (.expired t.h t.arg, { next_timeout := rest, free := s.free + 1 }) := by
  have hw : (4294967 : UInt32).toNat = 4294967 := rfl
  obtain ⟨time, hfirst, hfree, htime⟩ := next_timeout_received htimers (mboxWaited t0 t0)
  rw [mboxWaited_self, hw, Nat.sub_eq_zero_of_le hhour] at htime
  rw [runs_turn_message htimers hpos h, ← hfree]
  exact runs_turn_due (t := { t with time := time }) hfirst (UInt32.toNat_inj.mp htime)

/-- The message is there, and the timer that is due in 100 ms is called. -/
theorem expires_at_once_hundred :
    Runs (sys_timeouts_mbox_fetch 0 true (ahead.received 4294967)) []
      (.expired (some false) 0, ⟨[⟨150, some true, 0⟩], 7⟩) := by
  have hfetch : Runs (sys_arch_mbox_fetch 0 true 100)
      [⟨.OSTimeGet, 1000⟩, ⟨.OSQPend 100, (7, .OS_ERR_NONE)⟩, ⟨.OSTimeGet, 1000⟩]
      (4294967, some 7) :=
    runs_fetch_message.mpr ⟨by decide, by decide⟩
  have hturn : Runs (sys_timeouts_mbox_fetch 0 true ahead)
      [⟨.OSTimeGet, 1000⟩, ⟨.OSQPend 100, (7, .OS_ERR_NONE)⟩, ⟨.OSTimeGet, 1000⟩]
      (.received (some 7), ahead.received 4294967) :=
    runs_bind.mpr ⟨_, [], (4294967, some 7), (List.append_nil _).symm, hfetch, rfl, rfl⟩
  exact expires_at_once rfl (by decide) hturn (by decide)

end turns

end NetCamera
