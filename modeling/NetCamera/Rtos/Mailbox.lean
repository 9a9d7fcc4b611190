import Mathlib.Algebra.BigOperators.Fin
import Mathlib.Algebra.Order.BigOperators.Group.Finset
import NetCamera.Rtos.Delivery

/-!
# NetCamera.Rtos.Mailbox

The mutexes and mailboxes that `sys_arch.c` makes of semaphores and queues.

A mutex is a semaphore that starts at one (`sys_mutex_new` with `LWIP_COMPAT_MUTEX`): the books of
the semaphore bound how often it is held (`run_held_le`).

`sys_mbox_post` posts until the queue accepts the message.  Posting to a more urgent task that
blocks on nothing else it comes through at the first attempt (`run_post_to_urgent`); on a
full mailbox that only less urgent tasks empty it never ends (`post_spins`).
-/

namespace NetCamera.Rtos

open Run

namespace Seen

/-- How often a task has taken a semaphore. -/
def acquired (e : Ev) (p : Prio) (os : List Seen) : Nat := (returnedTo e p os).length

/-- How often a task has given it back. -/
def released (e : Ev) (p : Prio) (os : List Seen) : Nat :=
  os.countP fun
    | accepted e' poster _ => e' = e ∧ poster = some p
    | _ => false

/-- Every task's share of a list, taken together. -/
theorem sum_length_filter {α : Type} (l : List (Prio × α)) :
    ∑ p, (l.filter fun r => r.1 = p).length = l.length := by
  induction l with
  | nil => simp
  | cons r l ih =>
      have hone : ∀ p, ((r :: l).filter fun r => r.1 = p).length =
          (if r.1 = p then 1 else 0) + (l.filter fun r => r.1 = p).length := by
        intro p
        rw [List.filter_cons]
        by_cases hp : r.1 = p
        · simp [hp, Nat.add_comm]
        · simp [hp]
      simp only [hone, Finset.sum_add_distrib, ih, Finset.sum_ite_eq, Finset.mem_univ, if_true,
        List.length_cons, Nat.add_comm]

/-- The posts that tasks made are those of the single tasks. -/
theorem length_acceptedBy (e : Ev) {os : List Seen} (hisr : ∀ m, accepted e none m ∉ os) :
    (acceptedBy e os).length = ∑ p, released e p os := by
  induction os with
  | nil => simp [acceptedBy, released]
  | cons o os ih =>
      have ih' := ih fun m hm => hisr m (List.mem_cons_of_mem _ hm)
      cases o with
      | accepted e' poster m =>
          by_cases he : e' = e
          · subst he
            cases poster with
            | none => exact absurd List.mem_cons_self (hisr m)
            | some q =>
                have hcons : ∀ p, released e' p (accepted e' (some q) m :: os) =
                    (if q = p then 1 else 0) + released e' p os := by
                  intro p
                  rw [released, List.countP_cons, Nat.add_comm]
                  by_cases hp : q = p <;> simp [released, hp]
                simp only [hcons, Finset.sum_add_distrib, ← ih', Finset.sum_ite_eq,
                  Finset.mem_univ, if_true]
                simp [acceptedBy, Nat.add_comm]
          · have hcons : ∀ p, released e p (accepted e' poster m :: os) = released e p os := by
              intro p
              simp [released, he]
            simp only [hcons, ← ih']
            simp [acceptedBy, he]
      | handed e' p m => simpa [acceptedBy, released, List.countP_cons] using ih'
      | returned e' p m => simpa [acceptedBy, released, List.countP_cons] using ih'

end Seen

namespace Object

/-- Whether an object is full does not depend on the message. -/
theorem put_eq_none {o : Object} {m : Msg} (h : o.put m = none) (m' : Msg) :
    o.put m' = none := by
  cases o with
  | queue pq =>
      rw [Object.put] at h ⊢
      split at h
      · cases h
      · next hfull => rw [dif_neg hfull]
  | sem c => exact h

end Object

namespace Kernel

/-! ## Mutexes -/

/-- **A semaphore that starts at `n` is held at most `n` times.**  In every run in which no
interrupt service routine posts to it, all tasks together have taken it at most `n` times more
often than they have given it back. -/
theorem run_held_le {objects : Ev → Object} {prios : List Prio} {evs : List Event} {k : Kernel}
    (hrun : run step (boot objects prios) evs = some k) {e : Ev} {n : UInt16}
    (hsem : objects e = .sem n)
    (hisr : ∀ m, Seen.accepted e none m ∉ (boot objects prios).story evs) :
    ∑ p, Seen.acquired e p ((boot objects prios).story evs) ≤
      n.toNat + ∑ p, Seen.released e p ((boot objects prios).story evs) := by
  have hL := ledger_of_run hrun e
  generalize (boot objects prios).story evs = os at hL hisr ⊢
  have hlen := congrArg List.length hL.stored
  rw [hsem, List.length_append, List.length_append, List.length_map,
    Seen.length_acceptedBy e hisr] at hlen
  have hinit : (Object.sem n).contents.length = n.toNat := List.length_replicate ..
  have hle : ∀ p, Seen.acquired e p os ≤
      ((Seen.handedBy e os).filter fun r => r.1 = p).length := by
    intro p
    have hsent := congrArg List.length (hL.sent p)
    rw [Seen.handedTo, List.length_map, List.length_append] at hsent
    rw [Seen.acquired, hsent]
    exact Nat.le_add_right _ _
  calc ∑ p, Seen.acquired e p os
      ≤ ∑ p, ((Seen.handedBy e os).filter fun r => r.1 = p).length :=
        Finset.sum_le_sum fun p _ => hle p
    _ = (Seen.handedBy e os).length := Seen.sum_length_filter _
    _ ≤ n.toNat + ∑ p, Seen.released e p os := by omega

/-- **Mutual exclusion.**  While no task gives a mutex back more often than it has taken it, and no
interrupt service routine does, two tasks never hold it at once. -/
theorem run_mutex {objects : Ev → Object} {prios : List Prio} {evs : List Event} {k : Kernel}
    (hrun : run step (boot objects prios) evs = some k) {e : Ev} (hsem : objects e = .sem 1)
    (hisr : ∀ m, Seen.accepted e none m ∉ (boot objects prios).story evs)
    (hpaired : ∀ p, Seen.released e p ((boot objects prios).story evs) ≤
      Seen.acquired e p ((boot objects prios).story evs)) :
    Set.Subsingleton {p | Seen.released e p ((boot objects prios).story evs) <
      Seen.acquired e p ((boot objects prios).story evs)} := by
  have hle := run_held_le hrun hsem hisr
  intro p hp q hq
  rw [Set.mem_ofPred_eq] at hp hq
  generalize (boot objects prios).story evs = os at hle hpaired hp hq
  have hheld : ∑ r, (Seen.acquired e r os - Seen.released e r os) +
      ∑ r, Seen.released e r os = ∑ r, Seen.acquired e r os := by
    rw [← Finset.sum_add_distrib]
    exact Finset.sum_congr rfl fun r _ => Nat.sub_add_cancel (hpaired r)
  by_contra hne
  have htwo : ∑ r ∈ {p, q}, (Seen.acquired e r os - Seen.released e r os) ≤
      ∑ r, (Seen.acquired e r os - Seen.released e r os) :=
    Finset.sum_le_sum_of_subset (Finset.subset_univ _)
  rw [Finset.sum_pair hne] at htwo
  have hone : (1 : UInt16).toNat = 1 := rfl
  omega

theorem story_contention : (boot oneQueue [5, 6]).story contention =
    [.handed 1 5 0, .returned 1 5 0] := by
  decide +kernel

theorem run_mutex_contention :
    Set.Subsingleton {p | Seen.released 1 p ((boot oneQueue [5, 6]).story contention) <
      Seen.acquired 1 p ((boot oneQueue [5, 6]).story contention)} :=
  run_mutex (run_behind (by decide +kernel)) rfl (by simp [story_contention])
    (by simp [story_contention, Seen.released])

/-! ## Mailboxes -/

section Mailboxes

variable {k k' : Kernel} {e : Ev} {p : Prio}

/-- The message of `sys_mbox_post` and `sys_mbox_trypost`: the address `pvNullPointer` stands for a
null pointer. -/
def mboxMsg (pvNullPointer msg : Msg) : Msg := if msg = 0 then pvNullPointer else msg

/-- A task that is neither delayed nor suspended and in no pend on another event waits whenever a
less urgent one runs. -/
theorem Ok.waiting_of_lt (h : Ok k) (hlock : k.OSLockNesting = 0) (hrun : k.runsAt .code = true)
    (hlt : p < k.OSPrioCur) {t : OS_TCB} (ht : k.OSTCBPrioTbl p = some t)
    (hsusp : t.OSTCBStat ≠ OS_STAT_SUSPEND)
    (hdly : t.OSTCBStat = OS_STAT_RDY → t.OSTCBDly = 0)
    (honly : ∀ e', t.OSTCBStkPtr = .pendSched e' ∨ t.OSTCBStkPtr = .pendWake e' → e' = e) :
    p ∈ k.waiting e := by
  obtain ⟨hrdy, hpc⟩ := (h.task p).of_some ht
  have hnot : t.OSTCBStat ≠ OS_STAT_RDY := fun hstat =>
    absurd ((h.sched.running hlock .code hrun (.inl rfl)).2 (hrdy.mpr ⟨hstat, hdly hstat⟩))
      (not_le.mpr hlt)
  have hwait : ∀ e', InPend k e' p t → e' = e → p ∈ k.waiting e := by
    intro e' hin he
    cases hin with
    | waits _ _ hw => exact he ▸ hw
    | timedOut hstat => exact absurd hstat hnot
    | handed hstat => exact absurd hstat hnot
  cases hat : t.OSTCBStkPtr with
  | code =>
      rw [hat] at hpc
      exact absurd hpc.1 (not_or.mpr ⟨hnot, hsusp⟩)
  | sched =>
      rw [hat] at hpc
      exact absurd hpc.1 (not_or.mpr ⟨hnot, hsusp⟩)
  | pendSched e' =>
      rw [hat] at hpc
      exact hwait e' hpc.2 (honly e' (.inl hat))
  | pendWake e' =>
      rw [hat] at hpc
      exact hwait e' hpc.2 (honly e' (.inr hat))

/-- **A post to a more urgent task goes through at once.**  In every run: a task that posts to the
mailbox of a more urgent one, which is not delayed or suspended and in no pend on anything
else, finds it empty with that task waiting, and the message goes to the most urgent task
that waits there. -/
theorem run_post_to_urgent {objects : Ev → Object} {prios : List Prio} {evs : List Event}
    {k : Kernel} (hrun : run step (boot objects prios) evs = some k)
    (hlock : k.OSLockNesting = 0) (hat : k.runsAt .code = true) {e : Ev}
    (hqueue : (k.OSEventTbl e).object.isQueue = true) {p : Prio} (hlt : p < k.OSPrioCur)
    {t : OS_TCB} (ht : k.OSTCBPrioTbl p = some t) (hsusp : t.OSTCBStat ≠ OS_STAT_SUSPEND)
    (hdly : t.OSTCBStat = OS_STAT_RDY → t.OSTCBDly = 0)
    (honly : ∀ e', t.OSTCBStkPtr = .pendSched e' ∨ t.OSTCBStkPtr = .pendWake e' → e' = e)
    (pvNullPointer msg : Msg) :
    (k.OSEventTbl e).object.contents = [] ∧
      (k.OSQPost e (mboxMsg pvNullPointer msg)).err = .OS_ERR_NONE ∧
      ∃ q, (k.OSQPost e (mboxMsg pvNullPointer msg)).handedTo = some q ∧ q ≤ p ∧
        IsLeast {q | q ∈ k.waiting e} q := by
  have hok := ok_of_run (ok_boot objects prios) hrun
  have hwait := hok.waiting_of_lt hlock hat hlt ht hsusp hdly honly
  refine ⟨by_contra fun hne => hok.store e hne p hwait, ?_⟩
  rw [OSQPost, if_pos hqueue]
  rcases post_cases hok.task e (mboxMsg pvNullPointer msg) with ⟨q, _, -, hleast, -, -, hpost⟩ |
    ⟨hnone, -⟩
  · rw [hpost]
    exact ⟨rfl, q, rfl, hleast.2 hwait, hleast⟩
  · exact absurd hwait (hnone p)

/-- Task 6 posts while task 5 waits. -/
theorem run_post_to_urgent_handOver :
    ((behind oneQueue [5, 6] (handOver.take 4)).OSEventTbl 0).object.contents = [] ∧
      ((behind oneQueue [5, 6] (handOver.take 4)).OSQPost 0 (mboxMsg 9 0)).err = .OS_ERR_NONE ∧
      ∃ q, ((behind oneQueue [5, 6] (handOver.take 4)).OSQPost 0 (mboxMsg 9 0)).handedTo = some q ∧
        q ≤ 5 ∧ IsLeast {q | q ∈ (behind oneQueue [5, 6] (handOver.take 4)).waiting 0} q :=
  run_post_to_urgent (run_behind (by decide +kernel)) (by decide +kernel) (by decide +kernel)
    (by decide +kernel) (by decide +kernel)
    (show _ = some ⟨OS_STAT_Q, .OS_STAT_PEND_OK, 10, 0, .pendWake 0⟩ by decide +kernel)
    (by decide) (by decide) (by decide) 9 0

/-! ## A full mailbox -/

/-- A task that is ready in code of its own stays so while it makes no call. -/
def Idles (t : OS_TCB) : Prop :=
  t.OSTCBStat = OS_STAT_RDY ∧ t.OSTCBDly = 0 ∧ t.OSTCBStkPtr = .code

/-- What a step does to a full object that nobody takes from, and to a task that makes no call. -/
structure Quiet (k k' : Kernel) (e : Ev) (p : Prio) : Prop where
  object : (k'.OSEventTbl e).object = (k.OSEventTbl e).object
  tcb : k'.OSTCBPrioTbl p = k.OSTCBPrioTbl p

theorem Quiet.goOn {pc : Pc} (h : Quiet k k' e p) (hp : k'.OSPrioCur ≠ p) :
    Quiet k (k'.goOn pc) e p :=
  ⟨h.object, (Function.update_of_ne (Ne.symm hp) _ _).trans h.tcb⟩

theorem Quiet.refl (k : Kernel) (e : Ev) (p : Prio) : Quiet k k e p := ⟨rfl, rfl⟩

theorem Quiet.OS_Sched (h : Quiet k k' e p) : Quiet k k'.OS_Sched e p := by
  obtain ⟨hp, sv, heq⟩ := OS_Sched_eq k'
  rw [heq]
  exact ⟨h.object, h.tcb⟩

/-- A post to an object, full if it is the one in question. -/
theorem quiet_post (h : Ok k) (hfull : ∀ m, (k.OSEventTbl e).object.put m = none)
    {t : OS_TCB} (ht : k.OSTCBPrioTbl p = some t) (hat : t.OSTCBStkPtr = .code) (e' : Ev)
    (m : Msg) : Quiet k (k.post e' m).kernel e p := by
  rcases post_cases h.task e' m with ⟨q, t', ht', -, hpc, -, hpost⟩ |
    ⟨-, ⟨object, hput, hpost⟩ | ⟨-, hpost⟩⟩
  · rw [hpost]
    refine ⟨object_remove .., Function.update_of_ne (fun hq => ?_) _ _⟩
    rw [← hq, ht] at ht'
    obtain rfl := Option.some.inj ht'
    rcases hpc with hpc | hpc <;> rw [hat] at hpc <;> cases hpc
  · rw [hpost]
    refine ⟨?_, rfl⟩
    rw [object_setEvent, if_neg]
    rintro rfl
    rw [hfull m] at hput
    cases hput
  · rw [hpost]
    exact .refl k e p

/-- A task that goes on where it is. -/
theorem quiet_goOn_self {t : OS_TCB} (ht : k.OSTCBPrioTbl k.OSPrioCur = some t)
    (hat : t.OSTCBStkPtr = .code) : Quiet k (k.goOn .code) e p := by
  refine ⟨rfl, ?_⟩
  rw [tcb_goOn ht, ← hat]
  by_cases hp : p = k.OSPrioCur
  · rw [hp, Function.update_self, ht]
  · rw [Function.update_of_ne hp]

/-- What may happen while task `p` posts `m` to `e` over and over: the task does nothing else, and
no more urgent task takes from `e`. -/
structure Spins (p : Prio) (e : Ev) (m : Msg) (k : Kernel) (ev : Event) : Prop where
  own : k.OSPrioCur = p → k.OSIntNesting = 0 →
    ev = .OSIntEnter ∨ ev = .OS_CPU_PendSVHandler ∨ ev = .OSQPost e m
  urgent : k.OSPrioCur < p → ∀ timeout, ev ≠ .OSQPend e timeout

/-- The state of the loop: the task is ready in its own code, and the queue is full. -/
structure Full (p : Prio) (e : Ev) (k : Kernel) : Prop where
  ok : Ok k
  task : ∃ t, k.OSTCBPrioTbl p = some t ∧ Idles t
  queue : (k.OSEventTbl e).object.isQueue = true
  full : ∀ m, (k.OSEventTbl e).object.put m = none
  held : (k.OSEventTbl e).object.contents ≠ []

/-- A post by the task itself is refused. -/
theorem Full.post_eq (h : Full p e k) (m : Msg) :
    k.OSQPost e m = ⟨k, .OS_ERR_Q_FULL, none⟩ := by
  rw [OSQPost, if_pos h.queue]
  have hobj : (k.OSEventTbl e).object.full = .OS_ERR_Q_FULL := by
    have hq := h.queue
    cases ho : (k.OSEventTbl e).object with
    | queue pq => rfl
    | sem c =>
        rw [ho] at hq
        cases hq
  rcases post_cases h.ok.task e m with ⟨q, _, -, hleast, -⟩ | ⟨-, ⟨object, hput, -⟩ | ⟨-, hpost⟩⟩
  · exact absurd hleast.1 (h.ok.store e h.held q)
  · rw [h.full m] at hput
    cases hput
  · rw [hpost, hobj]

/-- A post of any kind leaves the full queue and the task as they are. -/
theorem Full.quiet_posted (h : Full p e k) (hcur : k.OSIntNesting = 0 → k.OSPrioCur ≠ p)
    {r : Posted} (hr : (∃ e' m, r = k.post e' m) ∨ ∃ err, r = ⟨k, err, none⟩)
    (hk : k.posted r = some k') : Quiet k k' e p := by
  obtain ⟨t, ht, -, -, hat⟩ := h.task
  have hquiet : Quiet k r.kernel e p ∧ r.kernel.OSPrioCur = k.OSPrioCur := by
    rcases hr with ⟨e', m, rfl⟩ | ⟨err, rfl⟩
    · exact ⟨quiet_post h.ok h.full ht hat e' m, (call_post h.ok e' m).ctl.cur⟩
    · exact ⟨.refl k e p, rfl⟩
  rw [posted] at hk
  split at hk
  · obtain rfl := Option.some.inj hk
    split
    · exact hquiet.1.OS_Sched
    · exact hquiet.1
  · next hnest =>
      split at hk
      · obtain rfl := Option.some.inj hk
        exact hquiet.1.goOn (hquiet.2 ▸ hcur (eq_zero_of_not_pos hnest))
      · cases hk

/-- A pend of another task leaves them as they are: one that could take from the queue would have
to be more urgent. -/
theorem Full.quiet_pend (h : Full p e k) (hmay : k.mayCall = true) (hcur : k.OSPrioCur ≠ p)
    {e' : Ev} (hurgent : k.OSPrioCur < p → e' ≠ e) (timeout : UInt32) :
    Quiet k (pended e' (k.pend e' timeout)) e p := by
  obtain ⟨t, ht, hstat, hdly, -⟩ := h.task
  have hready : p ∈ k.OSRdyTbl := ((h.ok.task p).of_some ht).1.mpr ⟨hstat, hdly⟩
  have hrun := (mayCall_iff.mp hmay).1
  obtain ⟨hnest, -, t', ht', -⟩ := runsAt_iff.mp hrun
  rcases pend_cases hnest ht' e' timeout with ⟨-, hpend⟩ |
    ⟨hlock, ⟨m, object, -, hpend⟩ | ⟨-, hpend⟩⟩
  · rw [hpend]
    exact .refl k e p
  · rw [hpend]
    have hle : k.OSPrioCur ≤ p := (h.ok.sched.running hlock .code hrun (.inl rfl)).2 hready
    have hne := hurgent (lt_of_le_of_ne hle hcur)
    refine ⟨?_, rfl⟩
    show ((k.setEvent e' _).OSEventTbl e).object = _
    rw [object_setEvent, if_neg (Ne.symm hne)]
  · rw [hpend]
    have hblocked : Quiet k (k.blocked e' t' timeout) e p :=
      ⟨object_blocked e' e, Function.update_of_ne (Ne.symm hcur) _ _⟩
    exact hblocked.goOn hcur

/-- **A step of the loop** leaves the full queue and the task as they are. -/
theorem Full.quiet_step {m : Msg} {ev : Event} (h : Full p e k) (hs : Spins p e m k ev)
    (hk : k.step ev = some k') : Quiet k k' e p := by
  obtain ⟨t, ht, hstat, hdly, hat⟩ := h.task
  -- a call by the task itself can only be its post
  have hcall : ev ≠ .OSIntEnter → ev ≠ .OS_CPU_PendSVHandler → ev ≠ .OSQPost e m →
      k.OSIntNesting = 0 → k.OSPrioCur ≠ p := fun h₁ h₂ h₃ hnest hcur =>
    (hs.own hcur hnest).elim h₁ fun hor => hor.elim h₂ h₃
  have hmay_nest : k.mayCall = true → k.OSIntNesting = 0 := fun hmay =>
    (runsAt_iff.mp (mayCall_iff.mp hmay).1).1
  cases ev with
  | OSIntEnter =>
      obtain ⟨-, hk⟩ := Option.ite_none_right_eq_some.mp hk
      obtain rfl := Option.some.inj hk
      obtain ⟨n, heq⟩ := OSIntEnter_eq k
      rw [heq]
      exact ⟨rfl, rfl⟩
  | OSIntExit =>
      obtain ⟨hnest, hk⟩ := Option.ite_none_right_eq_some.mp hk
      obtain rfl := Option.some.inj hk
      rw [OSIntExit_eq hnest]
      exact Quiet.OS_Sched ⟨rfl, rfl⟩
  | OS_CPU_PendSVHandler =>
      obtain ⟨-, hk⟩ := Option.ite_none_right_eq_some.mp hk
      obtain rfl := Option.some.inj hk
      exact ⟨rfl, rfl⟩
  | OSTime =>
      obtain ⟨-, hk⟩ := Option.ite_none_right_eq_some.mp hk
      obtain rfl := Option.some.inj hk
      exact ⟨rfl, rfl⟩
  | tickTcb q =>
      obtain ⟨-, hk⟩ := Option.ite_none_right_eq_some.mp hk
      obtain rfl := Option.some.inj hk
      rcases tickTcb_eq k q with heq | ⟨t', t'', s, ht', hdly', -, -, heq⟩
      · rw [heq]
        exact .refl k e p
      · rw [heq]
        refine ⟨rfl, Function.update_of_ne (fun hq => ?_) _ _⟩
        rw [← hq, ht] at ht'
        obtain rfl := Option.some.inj ht'
        exact hdly' hdly
  | OSQPost e' m' =>
      by_cases hown : Event.OSQPost e' m' = .OSQPost e m
      · obtain ⟨rfl, rfl⟩ := Event.OSQPost.inj hown
        have hk' : k.posted (k.OSQPost e' m') = some k' := hk
        rw [h.post_eq m', posted] at hk'
        split at hk'
        · exact Option.some.inj hk' ▸ .refl k e' p
        · split at hk'
          · next hmay =>
              obtain ⟨-, -, t', ht', hat'⟩ := runsAt_iff.mp (mayCall_iff.mp hmay).1
              exact Option.some.inj hk' ▸ quiet_goOn_self ht' hat'
          · cases hk'
      · exact h.quiet_posted (hcall (by simp) (by simp) hown) (OSQPost_cases k e' m') hk
  | OSSemPost e' =>
      exact h.quiet_posted (hcall (by simp) (by simp) (by simp)) (OSSemPost_cases k e') hk
  | OSQPend e' timeout =>
      obtain ⟨hmay, hk⟩ := Option.ite_none_right_eq_some.mp hk
      obtain rfl := Option.some.inj hk
      have hcur := hcall (by simp) (by simp) (by simp) (hmay_nest hmay)
      rw [OSQPend]
      split
      · refine h.quiet_pend hmay hcur (fun hlt he => ?_) timeout
        exact hs.urgent hlt timeout (by rw [he])
      · exact .refl k e p
  | OSSemPend e' timeout =>
      obtain ⟨hmay, hk⟩ := Option.ite_none_right_eq_some.mp hk
      obtain rfl := Option.some.inj hk
      have hcur := hcall (by simp) (by simp) (by simp) (hmay_nest hmay)
      rw [OSSemPend]
      split
      · exact .refl k e p
      · next hsem =>
          refine h.quiet_pend hmay hcur (fun _ he => hsem ?_) timeout
          rw [he]
          exact h.queue
  | OS_Sched inPend =>
      have hend : ∀ pc pc', k.runsAt pc = true → Quiet k (k.OS_Sched.goOn pc') e p := by
        intro pc pc' hrun
        have hcur := hcall (by simp) (by simp) (by simp) (runsAt_iff.mp hrun).1
        obtain ⟨hp, sv, heq⟩ := OS_Sched_eq k
        have hq : Quiet k k.OS_Sched e p := (Quiet.refl k e p).OS_Sched
        rw [heq] at hq ⊢
        exact hq.goOn hcur
      cases inPend with
      | none =>
          obtain ⟨hrun, hk⟩ := Option.ite_none_right_eq_some.mp hk
          exact Option.some.inj hk ▸ hend _ _ hrun
      | some e' =>
          obtain ⟨hrun, hk⟩ := Option.ite_none_right_eq_some.mp hk
          exact Option.some.inj hk ▸ hend _ _ hrun
  | pendEnd e' =>
      obtain ⟨hrun, hk⟩ := Option.ite_none_right_eq_some.mp hk
      obtain ⟨r, hr, rfl⟩ := Option.map_eq_some_iff.mp hk
      have hcur := hcall (by simp) (by simp) (by simp) (runsAt_iff.mp hrun).1
      obtain ⟨t', -, -, -, -, -, -, ⟨-, -, hend⟩ | ⟨-, -, hend⟩⟩ := pendEnd_cases h.ok hrun
      · obtain rfl := Option.some.inj (hr.symm.trans hend)
        refine Quiet.goOn ⟨rfl, ?_⟩ hcur
        exact Function.update_of_ne (Ne.symm hcur) _ _
      · obtain rfl := Option.some.inj (hr.symm.trans hend)
        refine Quiet.goOn ⟨object_remove .., ?_⟩ hcur
        exact Function.update_of_ne (Ne.symm hcur) _ _
  | OSTimeDly ticks =>
      obtain ⟨hmay, hk⟩ := Option.ite_none_right_eq_some.mp hk
      obtain rfl := Option.some.inj hk
      have hcur := hcall (by simp) (by simp) (by simp) (hmay_nest hmay)
      obtain ⟨-, -, t', ht', -⟩ := runsAt_iff.mp (mayCall_iff.mp hmay).1
      rcases OSTimeDly_eq ht' ticks with heq | heq
      · rw [heq]
        exact (Quiet.refl k e p).goOn hcur
      · rw [heq]
        exact Quiet.goOn ⟨rfl, Function.update_of_ne (Ne.symm hcur) _ _⟩ hcur
  | OSTaskSuspend =>
      obtain ⟨hmay, hk⟩ := Option.ite_none_right_eq_some.mp hk
      obtain rfl := Option.some.inj hk
      have hcur := hcall (by simp) (by simp) (by simp) (hmay_nest hmay)
      rw [OSTaskSuspend]
      split
      · exact (Quiet.refl k e p).goOn hcur
      · exact Quiet.goOn ⟨rfl, Function.update_of_ne (Ne.symm hcur) _ _⟩ hcur
  | OSTaskCreate prio =>
      obtain ⟨hmay, hk⟩ := Option.ite_none_right_eq_some.mp hk
      obtain rfl := Option.some.inj hk
      have hcur := hcall (by simp) (by simp) (by simp) (hmay_nest hmay)
      have hcreate := call_create h.ok prio
      refine Quiet.goOn ?_ (hcreate.ctl.cur ▸ hcur)
      rcases create_eq k prio with heq | ⟨hnone, t', l, s, -, heq⟩
      · rw [heq]
        exact .refl k e p
      · rw [heq]
        refine ⟨rfl, Function.update_of_ne (fun hq => ?_) _ _⟩
        rw [← hq, ht] at hnone
        cases hnone
  | OSSchedLock =>
      obtain ⟨-, hk⟩ := Option.ite_none_right_eq_some.mp hk
      obtain rfl := Option.some.inj hk
      obtain ⟨n, heq⟩ := OSSchedLock_eq k
      rw [heq]
      exact ⟨rfl, rfl⟩
  | OSSchedUnlock =>
      obtain ⟨hmay, hk⟩ := Option.ite_none_right_eq_some.mp hk
      obtain rfl := Option.some.inj hk
      have hcur := hcall (by simp) (by simp) (by simp) (hmay_nest hmay)
      obtain ⟨n, sched, heq⟩ := OSSchedUnlock_eq k
      rw [heq]
      exact Quiet.goOn ⟨rfl, rfl⟩ hcur

theorem Full.step {m : Msg} {ev : Event} (h : Full p e k) (hs : Spins p e m k ev)
    (hk : k.step ev = some k') : Full p e k' := by
  have hq := h.quiet_step hs hk
  obtain ⟨t, ht, hidle⟩ := h.task
  exact ⟨ok_step h.ok hk, ⟨t, hq.tcb.trans ht, hidle⟩, by rw [hq.object]; exact h.queue,
    by rw [hq.object]; exact h.full, by rw [hq.object]; exact h.held⟩

/-- **`sys_mbox_post` on a full mailbox never ends** while no more urgent task takes from it: as
long as the task goes on posting, whatever the other tasks and the interrupts do, every one of its
posts is refused and the mailbox stays as it is. -/
theorem post_spins {objects : Ev → Object} {prios : List Prio} {evs evs' : List Event}
    {k k' : Kernel} (hrun : run step (boot objects prios) evs = some k)
    (hlock : k.OSLockNesting = 0) (hat : k.runsAt .code = true) {e : Ev} {m : Msg}
    (hqueue : (k.OSEventTbl e).object.isQueue = true)
    (hfull : (k.OSEventTbl e).object.put m = none)
    (hheld : (k.OSEventTbl e).object.contents ≠ [])
    (hrun' : run step k evs' = some k') (hspins : Steps step (Spins k.OSPrioCur e m) k evs') :
    Steps step (fun s ev => ev = .OSQPost e m → (s.OSQPost e m).err = .OS_ERR_Q_FULL) k evs' ∧
      (k'.OSEventTbl e).object.contents = (k.OSEventTbl e).object.contents := by
  have hok := ok_of_run (ok_boot objects prios) hrun
  obtain ⟨t, ht, hat', -, hstat, hdly, -⟩ := hok.ready_of_runs hlock hat (.inl rfl)
  have hstart : Full k.OSPrioCur e k :=
    ⟨hok, ⟨t, ht, hstat, hdly, hat'⟩, hqueue, Object.put_eq_none hfull, hheld⟩
  constructor
  · exact steps_of_steps (I := Full k.OSPrioCur e) (fun s ev s' hI hs hk => hI.step hs hk)
      (fun s ev hI _ _ => by rw [hI.post_eq m]) hstart hspins
  · have hend := RunBy.invariant (I := fun s => Full k.OSPrioCur e s ∧
        (s.OSEventTbl e).object = (k.OSEventTbl e).object) ⟨hrun', hspins⟩
      (fun s ev s' hI hs hk => ⟨hI.1.step hs hk, (hI.1.quiet_step hs hk).object.trans hI.2⟩)
      ⟨hstart, rfl⟩
    rw [hend.2]

/-- Task 5 goes on to post a third message. -/
theorem post_spins_filling :
    Steps step (fun s ev => ev = .OSQPost 0 3 → (s.OSQPost 0 3).err = .OS_ERR_Q_FULL)
      (behind oneQueue [5, 6] filling) [.OSQPost 0 3, .OSQPost 0 3] ∧
      ((behind oneQueue [5, 6] (filling ++ [.OSQPost 0 3, .OSQPost 0 3])).OSEventTbl
        0).object.contents =
      ((behind oneQueue [5, 6] filling).OSEventTbl 0).object.contents := by
  have hstart : run step (boot oneQueue [5, 6]) filling =
      some (behind oneQueue [5, 6] filling) := run_behind (by decide +kernel)
  have hend : run step (boot oneQueue [5, 6]) (filling ++ [.OSQPost 0 3, .OSQPost 0 3]) =
      some (behind oneQueue [5, 6] (filling ++ [.OSQPost 0 3, .OSQPost 0 3])) :=
    run_behind (by decide +kernel)
  rw [run_append, hstart, Option.bind_some] at hend
  exact post_spins hstart (by decide +kernel) (by decide +kernel) (by decide +kernel)
    (by decide +kernel) (by decide +kernel) hend
    ⟨⟨by simp, by simp⟩, fun _ _ => ⟨⟨by simp, by simp⟩, fun _ _ => trivial⟩⟩

end Mailboxes

end Kernel

end NetCamera.Rtos
