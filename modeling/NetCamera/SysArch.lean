import NetCamera.Ucos

/-!
# NetCamera.SysArch

The waits of `sys_arch.c`.

A wait reads the tick counter, pends, and reads the counter again.  The fetch from a
mailbox compares the two counts strictly and the wait for a semaphore does not, and
both count one short where the counter has wrapped; the timeout goes to the kernel
through a cast to 16 bits, and zero waits for ever.
-/

namespace NetCamera

open Calls Run

/-! ## Functions -/

def OS_TICKS_PER_SEC : UInt32 := 1000

def SYS_ARCH_TIMEOUT : UInt32 := 0xffffffff

/-- `ucos_timeout`: the timeout in ticks, at least one. -/
def ucosTimeout (timeout : UInt32) : UInt32 :=
  if timeout ≠ 0 then
    let ucos_timeout := timeout * OS_TICKS_PER_SEC / 1000
    if ucos_timeout < 1 then 1 else ucos_timeout
  else 0

/-- `(u16_t)ucos_timeout`, as the kernel takes it. -/
def pendTicks (timeout : UInt32) : UInt32 := (ucosTimeout timeout).toUInt16.toUInt32

/-- What a fetch returns for the counts at the call and at the return. -/
def mboxWaited (timeout timeout_new : UInt32) : UInt32 :=
  let timeout_new := if timeout_new > timeout then timeout_new - timeout
    else 0xffffffff - timeout + timeout_new
  timeout_new * 1000 / OS_TICKS_PER_SEC + 1

/-- The same for a semaphore, with the other comparison. -/
def semWaited (timeout timeout_new : UInt32) : UInt32 :=
  let timeout_new := if timeout_new ≥ timeout then timeout_new - timeout
    else 0xffffffff - timeout + timeout_new
  timeout_new * 1000 / OS_TICKS_PER_SEC + 1

/-- What the caller of a fetch finds at `*msg`, if it wants the message; `pvNullPointer` is the
address that stands for a null message. -/
def msgOut (pvNullPointer : UInt32) (msg : Bool) (temp : UInt32) : Option UInt32 :=
  if msg then some (if temp = pvNullPointer then 0 else temp) else none

/-- The time, and what is stored at `*msg`. -/
def sys_arch_mbox_fetch (pvNullPointer : UInt32) (msg : Bool) (timeout : UInt32) :
    Os (UInt32 × Option UInt32) := do
  let ticks := pendTicks timeout
  let timeout ← OSTimeGet
  let (temp, ucErr) ← OSQPend ticks
  let msg := msgOut pvNullPointer msg temp
  if ucErr = .OS_ERR_TIMEOUT then return (SYS_ARCH_TIMEOUT, msg)
  else
    let timeout_new ← OSTimeGet
    return (mboxWaited timeout timeout_new, msg)

def sys_arch_sem_wait (timeout : UInt32) : Os UInt32 := do
  let ticks := pendTicks timeout
  let timeout ← OSTimeGet
  let ucErr ← OSSemPend ticks
  if ucErr = .OS_ERR_TIMEOUT then return SYS_ARCH_TIMEOUT
  else
    let timeout_new ← OSTimeGet
    return (semWaited timeout timeout_new)

/-! ## The time reported -/

section counts

variable {t0 t1 : UInt32}

/-- A span of ticks in milliseconds, and one. -/
theorem toNat_millis {e : UInt32} (h : e.toNat < 4294967) :
    (e * 1000 / OS_TICKS_PER_SEC + 1).toNat = e.toNat + 1 := by
  have hmul : (e * 1000).toNat = e.toNat * 1000 := by
    rw [UInt32.toNat_mul]
    exact Nat.mod_eq_of_lt (show e.toNat * 1000 < 4294967296 by omega)
  have hdiv : (e * 1000 / OS_TICKS_PER_SEC).toNat = e.toNat := by
    rw [UInt32.toNat_div, hmul]
    exact Nat.mul_div_cancel _ (by decide)
  rw [UInt32.toNat_add, hdiv]
  exact Nat.mod_eq_of_lt (show e.toNat + 1 < 4294967296 by omega)

/-- Where the counter has wrapped, the other branch is one short. -/
theorem toNat_wrapped (h : t1 < t0) :
    (0xffffffff - t0 + t1).toNat + 1 = (t1 - t0).toNat := by
  have hmax : (0xffffffff : UInt32).toNat = 4294967295 := rfl
  have hlt := UInt32.lt_iff_toNat_lt.mp h
  have ht0 := t0.toNat_lt
  have hle : t0 ≤ 0xffffffff := UInt32.le_iff_toNat_le.mpr (by omega)
  rw [UInt32.toNat_add, UInt32.toNat_sub_of_le _ _ hle, UInt32.toNat_sub, hmax]
  omega

/-- A counter that went up is reported right. -/
theorem mboxWaited_of_lt (he : (t1 - t0).toNat < 4294967) (h : t0 < t1) :
    (mboxWaited t0 t1).toNat = (t1 - t0).toNat + 1 := by
  simp only [mboxWaited, if_pos (show t1 > t0 from h)]
  exact toNat_millis he

/-- A counter that wrapped is reported one short. -/
theorem mboxWaited_of_gt (he : (t1 - t0).toNat < 4294967) (h : t1 < t0) :
    (mboxWaited t0 t1).toNat = (t1 - t0).toNat := by
  have hnot : ¬ t1 > t0 := fun hgt => UInt32.lt_irrefl _ (UInt32.lt_trans h hgt)
  have hshort := toNat_wrapped h
  simp only [mboxWaited, if_neg hnot]
  rw [toNat_millis (by omega)]
  exact hshort

/-- A counter that stood still is reported as more than an hour. -/
theorem mboxWaited_self (t : UInt32) : mboxWaited t t = 4294967 := by
  have hall : 0xffffffff - t + t = 0xffffffff := UInt32.sub_add_cancel _ _
  simp only [mboxWaited, if_neg (UInt32.lt_irrefl t), gt_iff_lt, hall]
  rfl

/-- The semaphore tells a counter that stood still from one that wrapped. -/
theorem semWaited_self (t : UInt32) : semWaited t t = 1 := by
  have hall : t - t = 0 := UInt32.sub_self t
  simp only [semWaited, if_pos (UInt32.le_refl t), ge_iff_le, hall]
  rfl

/-- Everywhere else the two agree. -/
theorem semWaited_of_ne (h : t0 ≠ t1) : semWaited t0 t1 = mboxWaited t0 t1 := by
  have hiff : t1 ≥ t0 ↔ t1 > t0 := by
    simp only [ge_iff_le, gt_iff_lt, UInt32.le_iff_toNat_le, UInt32.lt_iff_toNat_lt]
    have hne : t0.toNat ≠ t1.toNat := fun heq => h (UInt32.toNat_inj.mp heq)
    omega
  simp only [semWaited, mboxWaited, hiff]

/-- **A fetch reports the time waited** exactly when the counter went up. -/
theorem mboxWaited_iff (he : (t1 - t0).toNat < 4294967) :
    (mboxWaited t0 t1).toNat = (t1 - t0).toNat + 1 ↔ t0 < t1 := by
  refine ⟨fun hw => ?_, mboxWaited_of_lt he⟩
  by_cases hgt : t1 < t0
  · rw [mboxWaited_of_gt he hgt] at hw
    omega
  · by_cases heq : t0 = t1
    · rw [heq, mboxWaited_self, UInt32.sub_self] at hw
      exact absurd hw (by decide)
    · have hne : t0.toNat ≠ t1.toNat := fun h => heq (UInt32.toNat_inj.mp h)
      rw [UInt32.lt_iff_toNat_lt] at hgt ⊢
      omega

/-- A message is never reported as a timeout. -/
theorem mboxWaited_ne_timeout (t0 t1 : UInt32) : mboxWaited t0 t1 ≠ SYS_ARCH_TIMEOUT := by
  have hbound : ∀ e : UInt32, (e * 1000 / OS_TICKS_PER_SEC + 1).toNat ≤ 4294968 := by
    intro e
    have hlt := (e * 1000).toNat_lt
    have hdiv : (e * 1000 / OS_TICKS_PER_SEC).toNat ≤ 4294967 := by
      rw [UInt32.toNat_div]
      exact Nat.le_of_lt_succ (Nat.div_lt_of_lt_mul (Nat.lt_of_lt_of_le hlt (by decide)))
    have hone : (1 : UInt32).toNat = 1 := rfl
    rw [UInt32.toNat_add, hone]
    exact Nat.le_trans (Nat.mod_le _ _) (by omega)
  intro heq
  have hle := hbound (if t1 > t0 then t1 - t0 else 0xffffffff - t0 + t1)
  have hnat : (mboxWaited t0 t1).toNat = 4294967295 := by
    rw [heq]
    rfl
  have hsame : (mboxWaited t0 t1).toNat ≤ 4294968 := hle
  omega

end counts

/-! ## The ticks handed over -/

/-- The conversion and the cast keep the timeout from becoming zero: `1000 * timeout`, cut to 32
bits, is less than a tick, or not within a tick behind a multiple of 65536 ticks. -/
def TicksKept (timeout : UInt32) : Prop :=
  1000 * timeout.toNat % 4294967296 < 1000 ∨
    1000 ≤ 1000 * timeout.toNat % 4294967296 % 65536000

instance (timeout : UInt32) : Decidable (TicksKept timeout) :=
  inferInstanceAs (Decidable (_ ∨ _))

theorem toNat_ucosTimeout {timeout : UInt32} (h : timeout ≠ 0) :
    (ucosTimeout timeout).toNat = max 1 (1000 * timeout.toNat % 4294967296 / 1000) := by
  have hdiv : (timeout * OS_TICKS_PER_SEC / 1000).toNat =
      1000 * timeout.toNat % 4294967296 / 1000 := by
    rw [UInt32.toNat_div, UInt32.toNat_mul, Nat.mul_comm]
    rfl
  have hone : (1 : UInt32).toNat = 1 := rfl
  simp only [ucosTimeout, if_pos h]
  split
  · next hlt =>
      rw [UInt32.lt_iff_toNat_lt, hdiv, hone] at hlt
      rw [hone, Nat.max_eq_left (Nat.le_of_lt hlt)]
  · next hge =>
      rw [UInt32.lt_iff_toNat_lt, hdiv, hone] at hge
      rw [hdiv, Nat.max_eq_right (Nat.le_of_not_lt hge)]

theorem toNat_pendTicks {timeout : UInt32} (h : timeout ≠ 0) :
    (pendTicks timeout).toNat = max 1 (1000 * timeout.toNat % 4294967296 / 1000) % 65536 := by
  rw [← toNat_ucosTimeout h]
  exact UInt32.toNat_toUInt16 _

/-- **The kernel is handed a count** exactly then. -/
theorem pendTicks_ne_zero_iff {timeout : UInt32} (h : timeout ≠ 0) :
    pendTicks timeout ≠ 0 ↔ TicksKept timeout := by
  have hzero : pendTicks timeout ≠ 0 ↔ (pendTicks timeout).toNat ≠ 0 :=
    not_congr UInt32.toNat_inj.symm
  rw [hzero, toNat_pendTicks h, TicksKept]
  generalize 1000 * timeout.toNat % 4294967296 = ms
  omega

/-- Below 65536 milliseconds it is the timeout itself. -/
theorem toNat_pendTicks_of_lt {timeout : UInt32} (h : timeout.toNat < 65536) :
    (pendTicks timeout).toNat = timeout.toNat := by
  by_cases hzero : timeout = 0
  · rw [hzero]
    rfl
  · have hpos : timeout.toNat ≠ 0 := fun heq => hzero (UInt32.toNat_inj.mp heq)
    rw [toNat_pendTicks hzero, Nat.mod_eq_of_lt (by omega : 1000 * timeout.toNat < _),
      Nat.mul_div_cancel_left _ (by decide), Nat.max_eq_right (Nat.pos_of_ne_zero hpos)]
    exact Nat.mod_eq_of_lt h

/-- Up to an hour or so the multiples of 65536 milliseconds are the ones that do. -/
theorem ticksKept_iff {timeout : UInt32} (h : timeout.toNat ≤ 4294967) :
    TicksKept timeout ↔ timeout.toNat = 0 ∨ ¬ 65536 ∣ timeout.toNat := by
  rw [TicksKept, Nat.mod_eq_of_lt (show 1000 * timeout.toNat < 4294967296 by omega)]
  omega

/-! ## The two waits -/

section waits

variable {pvNullPointer timeout t0 t1 n : UInt32} {msg : Bool} {cs : Answers OsCall.Answer}

/-- A fetch that is given a message. -/
theorem runs_fetch_message {temp : UInt32} {r : UInt32 × Option UInt32} :
    Runs (sys_arch_mbox_fetch pvNullPointer msg timeout)
      [⟨.OSTimeGet, t0⟩, ⟨.OSQPend n, (temp, .OS_ERR_NONE)⟩, ⟨.OSTimeGet, t1⟩] r ↔
    n = pendTicks timeout ∧ r = (mboxWaited t0 t1, msgOut pvNullPointer msg temp) := by
  constructor
  · rintro ⟨t, _, heq, ans, _, rfl, hrest⟩
    cases heq
    obtain ⟨t', _, heq', hnil, rfl⟩ := hrest
    cases heq'
    exact ⟨rfl, rfl⟩
  · rintro ⟨rfl, rfl⟩
    exact ⟨_, _, rfl, _, _, rfl, _, _, rfl, rfl, rfl⟩

/-- Such a fetch there is for all counts. -/
theorem runs_some_message (timeout t0 t1 : UInt32) :
    Runs (sys_arch_mbox_fetch 0 true timeout)
      [⟨.OSTimeGet, t0⟩, ⟨.OSQPend (pendTicks timeout), (1, .OS_ERR_NONE)⟩, ⟨.OSTimeGet, t1⟩]
      (mboxWaited t0 t1, some 1) :=
  runs_fetch_message.mpr ⟨rfl, rfl⟩

/-- A wait whose semaphore is signalled. -/
theorem runs_sem_signalled {v : UInt32} :
    Runs (sys_arch_sem_wait timeout)
      [⟨.OSTimeGet, t0⟩, ⟨.OSSemPend n, .OS_ERR_NONE⟩, ⟨.OSTimeGet, t1⟩] v ↔
    n = pendTicks timeout ∧ v = semWaited t0 t1 := by
  constructor
  · rintro ⟨t, _, heq, ans, _, rfl, hrest⟩
    cases heq
    obtain ⟨t', _, heq', hnil, rfl⟩ := hrest
    cases heq'
    exact ⟨rfl, rfl⟩
  · rintro ⟨rfl, rfl⟩
    exact ⟨_, _, rfl, _, _, rfl, _, _, rfl, rfl, rfl⟩

/-- Whatever the kernel answers, a fetch pends once, with the count for its timeout. -/
theorem waitsFor_sys_arch_mbox_fetch :
    WaitsFor .queue (pendTicks timeout) (sys_arch_mbox_fetch pvNullPointer msg timeout) := by
  refine Or.inl ⟨rfl, fun t => Or.inr ⟨rfl, fun r => ?_⟩⟩
  by_cases herr : r.2 = .OS_ERR_TIMEOUT
  · simp [Prog.bind, herr, pure, Prog.OnlyCalls]
  · simp only [Prog.bind, herr, if_false]
    exact ⟨rfl, fun _ => trivial⟩

/-- And so does a wait for a semaphore. -/
theorem waitsFor_sys_arch_sem_wait :
    WaitsFor .sem (pendTicks timeout) (sys_arch_sem_wait timeout) := by
  refine Or.inl ⟨rfl, fun t => Or.inr ⟨rfl, fun ucErr => ?_⟩⟩
  by_cases herr : ucErr = .OS_ERR_TIMEOUT
  · simp [Prog.bind, herr, pure, Prog.OnlyCalls]
  · simp only [Prog.bind, herr, if_false]
    exact ⟨rfl, fun _ => trivial⟩

end waits

/-! ## What is asked of a wait -/

/-- A wait for at most `timeout`, between the counts `t0` and `t1`. -/
structure WaitOk (timeout t0 t1 : UInt32) : Prop where
  /-- given a message, the fetch returns the time between the counts, and one -/
  reported : ∀ pvNullPointer msg n temp r,
    Runs (sys_arch_mbox_fetch pvNullPointer msg timeout)
      [⟨.OSTimeGet, t0⟩, ⟨.OSQPend n, (temp, .OS_ERR_NONE)⟩, ⟨.OSTimeGet, t1⟩] r →
    r.1.toNat = (t1 - t0).toNat + 1
  /-- which a wait for a semaphore returns, too -/
  same : ∀ pvNullPointer msg n temp r timeout' n' v,
    Runs (sys_arch_mbox_fetch pvNullPointer msg timeout)
      [⟨.OSTimeGet, t0⟩, ⟨.OSQPend n, (temp, .OS_ERR_NONE)⟩, ⟨.OSTimeGet, t1⟩] r →
    Runs (sys_arch_sem_wait timeout')
      [⟨.OSTimeGet, t0⟩, ⟨.OSSemPend n', .OS_ERR_NONE⟩, ⟨.OSTimeGet, t1⟩] v → r.1 = v
  /-- with a timeout, neither pends without a count -/
  fetch_bounded : timeout ≠ 0 → ∀ pvNullPointer msg cs r n ans,
    Runs (sys_arch_mbox_fetch pvNullPointer msg timeout) cs r → ⟨.OSQPend n, ans⟩ ∈ cs → n ≠ 0
  sem_bounded : timeout ≠ 0 → ∀ cs v n ans,
    Runs (sys_arch_sem_wait timeout) cs v → ⟨.OSSemPend n, ans⟩ ∈ cs → n ≠ 0

/-- **A wait reports its time and ends** exactly when the counter went up and the timeout is not
lost on the way to the kernel. -/
theorem wait_ok_iff {timeout t0 t1 : UInt32} (helapsed : (t1 - t0).toNat < 4294967) :
    WaitOk timeout t0 t1 ↔ t0 < t1 ∧ TicksKept timeout := by
  have hmessage := runs_some_message timeout t0 t1
  constructor
  · intro h
    refine ⟨(mboxWaited_iff helapsed).mp (h.reported _ _ _ _ _ hmessage), ?_⟩
    by_cases hzero : timeout = 0
    · rw [hzero]
      decide
    · rw [← pendTicks_ne_zero_iff hzero]
      exact h.fetch_bounded hzero _ _ _ _ _ _ hmessage
        (List.mem_cons_of_mem _ List.mem_cons_self)
  · rintro ⟨hlt, hkept⟩
    have hne : t0 ≠ t1 := fun heq => UInt32.lt_irrefl t1 (heq ▸ hlt)
    constructor
    · intro pvNullPointer msg n temp r hr
      obtain ⟨-, rfl⟩ := runs_fetch_message.mp hr
      exact mboxWaited_of_lt helapsed hlt
    · intro pvNullPointer msg n temp r timeout' n' v hr hv
      obtain ⟨-, rfl⟩ := runs_fetch_message.mp hr
      obtain ⟨-, rfl⟩ := runs_sem_signalled.mp hv
      exact (semWaited_of_ne hne).symm
    · intro hzero pvNullPointer msg cs r n ans hr hpend
      have hcalls := calls_of_runs (calls_of_waitsFor waitsFor_sys_arch_mbox_fetch) hr
      obtain ⟨-, rfl⟩ := Prod.mk.inj (hcalls _ hpend _ rfl)
      exact (pendTicks_ne_zero_iff hzero).mpr hkept
    · intro hzero cs v n ans hv hpend
      have hcalls := calls_of_runs (calls_of_waitsFor waitsFor_sys_arch_sem_wait) hv
      obtain ⟨-, rfl⟩ := Prod.mk.inj (hcalls _ hpend _ rfl)
      exact (pendTicks_ne_zero_iff hzero).mpr hkept

/-- A wait of 250 ms that a message ends after 5. -/
theorem wait_ok_five : WaitOk 250 1000 1005 :=
  (wait_ok_iff (by decide)).mpr ⟨by decide, by decide⟩

/-- A message that is already there is reported as a wait of 4294967 ms, where the semaphore
says 1; one that comes 5 ms later, over the wrap of the counter, as 5 instead of 6; and a timeout
of 65536 ms is none. -/
theorem wait_misreported : ¬ WaitOk 250 1000 1000 ∧ mboxWaited 1000 1000 = 4294967 ∧
    semWaited 1000 1000 = 1 ∧ ¬ WaitOk 250 0xFFFFFFFE 3 ∧ mboxWaited 0xFFFFFFFE 3 = 5 ∧
    ¬ WaitOk 65536 1000 1005 ∧ pendTicks 65536 = 0 := by
  refine ⟨fun h => ?_, mboxWaited_self _, semWaited_self _, fun h => ?_, rfl, fun h => ?_, rfl⟩
  · have hr := h.reported _ _ _ _ _ (runs_some_message 250 1000 1000)
    rw [mboxWaited_self] at hr
    exact absurd hr (by decide)
  · have hr := h.reported _ _ _ _ _ (runs_some_message 250 0xFFFFFFFE 3)
    exact absurd hr (by decide)
  · exact h.fetch_bounded (by decide) _ _ _ _ _ _ (runs_some_message 65536 1000 1005)
      (List.mem_cons_of_mem _ List.mem_cons_self) rfl

/-! ## Waits at work -/

section atWork

variable {pvNullPointer timeout : UInt32} {msg : Bool} {k : Kernel}
  {t : Thread OsCall.Answer Kernel (UInt32 × Option UInt32)}

/-- What a fetch returns: the mark of a timeout, or what its two counts make. -/
theorem runs_fetch {cs : Answers OsCall.Answer} {r : UInt32 × Option UInt32}
    (h : Runs (sys_arch_mbox_fetch pvNullPointer msg timeout) cs r) :
    ∃ t0 temp ucErr rest,
      cs = ⟨.OSTimeGet, t0⟩ :: ⟨.OSQPend (pendTicks timeout), (temp, ucErr)⟩ :: rest ∧
      (r.1 = SYS_ARCH_TIMEOUT ∧ ucErr = .OS_ERR_TIMEOUT ∧ rest = [] ∨
        ∃ t1, rest = [⟨.OSTimeGet, t1⟩] ∧ r.1 = mboxWaited t0 t1) := by
  obtain ⟨t0, _, rfl, ⟨temp, ucErr⟩, rest, rfl, hrest⟩ := h
  refine ⟨t0, temp, ucErr, rest, rfl, ?_⟩
  by_cases herr : ucErr = .OS_ERR_TIMEOUT
  · subst herr
    obtain ⟨rfl, rfl⟩ := hrest
    exact Or.inl ⟨rfl, rfl, rfl⟩
  · simp only [Prog.bind, herr, if_false] at hrest
    obtain ⟨t1, _, rfl, rfl, rfl⟩ := hrest
    exact Or.inr ⟨t1, rfl, rfl⟩

/-- **A fetch at work**, from its first step to its last: with a message it returns the report
for the count at the first and as many ticks later as there were, whatever else happened. -/
theorem fetch_at_work {es : List (Calls.Event KernelEvent)} {r : UInt32 × Option UInt32}
    (hrun : run ucos.step (.start (sys_arch_mbox_fetch pvNullPointer msg timeout) k)
      (.go :: es ++ [.go]) = some t)
    (hret : t.prog = .ret r) (hmessage : r.1 ≠ SYS_ARCH_TIMEOUT) :
    r.1 = mboxWaited k.OSTime (k.OSTime + UInt32.ofNat (ticks es)) := by
  obtain ⟨t0, temp, ucErr, rest, hlog, hend⟩ := runs_fetch (runs_of_run hrun hret)
  obtain ⟨htimeout, -⟩ | ⟨t1, rfl, hr⟩ := hend
  · exact absurd htimeout hmessage
  rw [List.cons_append, run_cons_eq_some] at hrun
  obtain ⟨s, hfirst, hrun⟩ := hrun
  cases hfirst
  rw [run_append, Option.bind_eq_some_iff] at hrun
  obtain ⟨s', hmid, hlast⟩ := hrun
  obtain ⟨_, hstep, hnil⟩ := run_cons_eq_some.mp hlast
  cases hnil
  -- the first answer is the count at the start
  have hbefore : t0 = k.OSTime := by
    obtain ⟨cs, hcs⟩ := log_run hmid
    obtain ⟨q, b, -, happ⟩ := last_answer hstep hret
    rw [hcs, hlog] at happ
    have hhead := (List.cons.inj happ).1
    cases hhead
    rfl
  -- the last one is the count after the ticks
  have hafter : t1 = k.OSTime + UInt32.ofNat (ticks es) := by
    obtain ⟨q, b, hserve, happ⟩ := last_answer hstep hret
    rw [hlog] at happ
    have hq : (⟨.OSTimeGet, t1⟩ : Sigma OsCall.Answer) = ⟨q, b⟩ := by
      have hlasts := congrArg List.getLast? happ
      rw [List.getLast?_append] at hlasts
      exact Option.some.inj hlasts
    cases hq
    obtain ⟨hread, -⟩ := Prod.mk.inj (Option.some.inj hserve)
    have hcount : s'.state.OSTime = t1 := Option.some.inj hread
    rw [← hcount]
    exact OSTime_run hmid
  rw [hr, hbefore, hafter]

/-- So a fetch that gets its message before the next tick reports an hour and more. -/
theorem fetch_at_once {es : List (Calls.Event KernelEvent)} {r : UInt32 × Option UInt32}
    (hrun : run ucos.step (.start (sys_arch_mbox_fetch pvNullPointer msg timeout) k)
      (.go :: es ++ [.go]) = some t)
    (hret : t.prog = .ret r) (hmessage : r.1 ≠ SYS_ARCH_TIMEOUT) (hticks : ticks es = 0) :
    r.1 = 4294967 := by
  rw [fetch_at_work hrun hret hmessage, hticks]
  have hzero : k.OSTime + UInt32.ofNat 0 = k.OSTime := UInt32.add_zero _
  rw [hzero, mboxWaited_self]

/-- And one that gets it later reports the ticks, and one, up to the wrap of the counter. -/
theorem fetch_in_time {es : List (Calls.Event KernelEvent)} {r : UInt32 × Option UInt32}
    (hrun : run ucos.step (.start (sys_arch_mbox_fetch pvNullPointer msg timeout) k)
      (.go :: es ++ [.go]) = some t)
    (hret : t.prog = .ret r) (hmessage : r.1 ≠ SYS_ARCH_TIMEOUT) (hpos : 0 < ticks es)
    (hfew : ticks es < 4294967) (hwrap : k.OSTime.toNat + ticks es < 4294967296) :
    r.1.toNat = ticks es + 1 := by
  have hnat : (UInt32.ofNat (ticks es)).toNat = ticks es := by
    rw [UInt32.toNat_ofNat']
    omega
  have hsum : (k.OSTime + UInt32.ofNat (ticks es)).toNat = k.OSTime.toNat + ticks es := by
    rw [UInt32.toNat_add, hnat]
    exact Nat.mod_eq_of_lt hwrap
  have hlt : k.OSTime < k.OSTime + UInt32.ofNat (ticks es) := by
    rw [UInt32.lt_iff_toNat_lt, hsum]
    omega
  have helapsed : (k.OSTime + UInt32.ofNat (ticks es) - k.OSTime).toNat = ticks es := by
    rw [UInt32.toNat_sub_of_le _ _ (UInt32.le_of_lt hlt), hsum]
    omega
  rw [fetch_at_work hrun hret hmessage, mboxWaited_of_lt (by rw [helapsed]; exact hfew) hlt,
    helapsed]

/-- A time-out, on the other hand, is not early: the ticks that the kernel was handed are over. -/
theorem fetch_timeout {es : List (Calls.Event KernelEvent)} {r : UInt32 × Option UInt32}
    (hrun : run ucos.step (.start (sys_arch_mbox_fetch pvNullPointer msg timeout) k) es = some t)
    (hret : t.prog = .ret r) (htimeout : r.1 = SYS_ARCH_TIMEOUT) (hidle : k.inPend = false) :
    (pendTicks timeout).toNat ≤ ticks es := by
  obtain ⟨t0, temp, ucErr, rest, hlog, hend⟩ := runs_fetch (runs_of_run hrun hret)
  obtain ⟨-, herr, -⟩ | ⟨t1, -, hwaited⟩ := hend
  · refine ticks_of_timeout (c := ⟨.OSQPend (pendTicks timeout), (temp, ucErr)⟩)
      waitsFor_sys_arch_mbox_fetch hidle hrun ?_ herr
    rw [hlog]
    exact List.mem_cons_of_mem _ List.mem_cons_self
  · exact absurd (hwaited.symm.trans htimeout) (mboxWaited_ne_timeout t0 t1)

/-- Below 65536 milliseconds that is the time that was asked for. -/
theorem fetch_timeout_of_lt {es : List (Calls.Event KernelEvent)} {r : UInt32 × Option UInt32}
    (hrun : run ucos.step (.start (sys_arch_mbox_fetch pvNullPointer msg timeout) k) es = some t)
    (hret : t.prog = .ret r) (htimeout : r.1 = SYS_ARCH_TIMEOUT) (hidle : k.inPend = false)
    (hlt : timeout.toNat < 65536) : timeout.toNat ≤ ticks es := by
  rw [← toNat_pendTicks_of_lt hlt]
  exact fetch_timeout hrun hret htimeout hidle

/-- **A fetch with a timeout ends** by ticks alone exactly when the timeout is kept. -/
theorem fetch_ends_iff (hidle : k.Idle .queue) (htimeout : timeout ≠ 0) :
    (∃ es t r, RunBy ucos.step (fun _ => NoPost .queue)
      (.start (sys_arch_mbox_fetch pvNullPointer msg timeout) k) es t ∧ t.prog = .ret r) ↔
    TicksKept timeout := by
  rw [waitsFor_ends_iff waitsFor_sys_arch_mbox_fetch hidle, pendTicks_ne_zero_iff htimeout]

theorem sem_wait_ends_iff (hidle : k.Idle .sem) (htimeout : timeout ≠ 0) :
    (∃ es t v, RunBy ucos.step (fun _ => NoPost .sem) (.start (sys_arch_sem_wait timeout) k)
      es t ∧ t.prog = .ret v) ↔ TicksKept timeout := by
  rw [waitsFor_ends_iff waitsFor_sys_arch_sem_wait hidle, pendTicks_ne_zero_iff htimeout]

end atWork

end NetCamera
