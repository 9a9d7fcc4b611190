import NetCamera.Lib.Tally
import NetCamera.Server.Replies

/-!
# NetCamera.Server.Resources

The connections and receive buffers the server holds.

`newconn` and `recvbuf` are each one variable, so the calls tell which object a
`netconn_close`, `netconn_delete` or `netbuf_delete` is for (`Tally`).  What a step
adds to the calls depends on the stage of the thread alone (`CallStep`), and each
stage holds certain objects (`Held`).  The one exit that forgets its buffer is
the failed reply write: `no_leak_iff`.
-/

namespace NetCamera

open Run Tally

/-! ## Stages -/

/-- What the thread is at: it has no client, serves one, has a received buffer in
hand, or has stopped with one. -/
inductive Stage where
  | listening
  | serving
  | replying
  | stopped
  deriving DecidableEq, Repr

def Pc.stage : Pc → Stage
  | accept => .listening
  | reply _ => .replying
  | reset => .stopped
  | fault => .stopped
  | _ => .serving

theorem stage_chunkPc (b : FrameBuf) (len i : Nat) : (chunkPc b len i).stage = .serving := by
  unfold chunkPc
  split <;> rfl

theorem stage_next (ctx : RecvCtx) : ctx.next.stage = .serving := by
  cases ctx <;> rfl

/-- A call that is a write. -/
def Call.isWrite : Call → Bool
  | write _ _ _ => true
  | _ => false

/-- The effect of a step on the calls and on the stage. -/
inductive CallStep (s : Server) (e : Event) (s' : Server) : Prop where
  /-- No call is made. -/
  | quiet (hcalls : s'.calls = s.calls) (hst : s'.pc.stage = s.pc.stage)
  /-- A client connects. -/
  | accepted (hcalls : s'.calls = s.calls ++ [.accept]) (hst : s.pc.stage = .listening)
      (hst' : s'.pc.stage = .serving)
  /-- A part of an image is written. -/
  | wrote (c : Call) (hc : c.isWrite = true) (hcalls : s'.calls = s.calls ++ [c])
      (hst : s.pc.stage = .serving) (hst' : s'.pc.stage = .serving)
  /-- The connection is given up, perhaps after a write of a part of an image. -/
  | lost (cs : List Call) (hcs : ∀ c ∈ cs, c.isWrite = true)
      (hcalls : s'.calls = s.calls ++ cs ++ [.close, .delete])
      (hst : s.pc.stage = .serving) (hst' : s'.pc = .accept)
  /-- A buffer is received. -/
  | received (hcalls : s'.calls = s.calls ++ [.recv]) (hst : s.pc.stage = .serving)
      (hst' : s'.pc.stage = .replying ∨ s'.pc.stage = .stopped)
  /-- The reply is written and the buffer deleted. -/
  | replied (c : Call) (hc : c.isWrite = true) (hcalls : s'.calls = s.calls ++ [c, .netbuf_delete])
      (hst : s.pc.stage = .replying) (hst' : s'.pc.stage = .serving)
      (hkept : ∀ err, e = .ret err → err.gone = false)
  /-- The reply fails and the connection is given up. -/
  | dropped (ctx : RecvCtx) (err : Err) (c : Call) (hc : c.isWrite = true)
      (hcalls : s'.calls = s.calls ++ [c, .close, .delete]) (hpc : s.pc = .reply ctx)
      (hst' : s'.pc = .accept) (he : e = .ret err) (hgone : err.gone = true)
  /-- The camera reboots. -/
  | rebooted (mem : FrameBuf → Nat → BitVec 32) (hs : s' = boot s.cam.flash mem)

/-- The part of an image is written; the thread goes on or gives the connection up. -/
theorem callStep_goOn {s : Server} {size : Nat} {bytes : List UInt8} {err : Err} {e : Event}
    {pc : Pc} (hst : s.pc.stage = .serving) (hst' : pc.stage = .serving) :
    CallStep s e ((s.wrote size bytes err).goOn err pc) := by
  unfold Server.goOn
  split
  · refine .lost [.write size bytes err] (by simp [Call.isWrite]) ?_ hst rfl
    rw [List.append_assoc, Server.giveUp, Server.wrote, List.append_assoc]
  · exact .wrote (.write size bytes err) rfl rfl hst hst'

theorem callStep_tick {s s' : Server} (h : tickStep s = some s') : CallStep s .tick s' := by
  cases hpc : s.pc <;> simp only [tickStep, hpc, Option.some.injEq, reduceCtorEq] at h <;> subst h
  case idle =>
    unfold Server.goOn
    split
    · exact .lost [] (by simp) (by rw [List.append_nil]; rfl) (by rw [hpc]; rfl) rfl
    · exact .quiet rfl (by rw [hpc]; rfl)
  case readLen => exact .quiet rfl (by rw [hpc]; rfl)
  case ack b => cases b <;> exact .quiet rfl (by rw [hpc]; rfl)
  all_goals
    refine .quiet rfl ?_
    rw [hpc]
    simp only
    split <;> rfl

theorem callStep_ret {s s' : Server} {e : Err} (h : retStep s e = some s') :
    CallStep s (.ret e) s' := by
  cases hpc : s.pc <;> simp only [retStep, hpc, reduceCtorEq] at h
  case accept =>
    split at h <;> simp only [Option.some.injEq] at h <;> subst h
    · exact .accepted rfl (by rw [hpc]; rfl) rfl
    · exact .quiet rfl (by rw [hpc])
  case logo b len =>
    split at h <;> simp only [Option.some.injEq] at h <;> subst h
    · refine .lost [.write 16 s.send_logo e] (by simp [Call.isWrite]) ?_ (by rw [hpc]; rfl) rfl
      rw [List.append_assoc, Server.giveUp, Server.wrote, List.append_assoc]
    · exact .wrote _ rfl rfl (by rw [hpc]; rfl) rfl
  case header b len g_header =>
    simp only [Option.some.injEq] at h
    subst h
    exact callStep_goOn (by rw [hpc]; rfl) (stage_chunkPc b len 0)
  case chunk b len i =>
    split at h <;> simp only [Option.some.injEq] at h <;> subst h
    · exact callStep_goOn (by rw [hpc]; rfl) rfl
    · exact .wrote _ rfl rfl (by rw [hpc]; rfl) (stage_chunkPc b len (i + 1))
  case tail b len =>
    split at h
    · cases h
    · simp only [Option.some.injEq] at h
      subst h
      exact callStep_goOn (by rw [hpc]; rfl) rfl
  case endMark b =>
    simp only [Option.some.injEq] at h
    subst h
    exact callStep_goOn (by rw [hpc]; rfl) rfl
  case reply ctx =>
    split at h <;> simp only [Option.some.injEq] at h <;> subst h
    · next hgone =>
      refine .dropped ctx e (.write s.cam.replyLen s.cam.reply e) rfl ?_ hpc rfl rfl hgone
      rw [Server.giveUp, Server.wrote, List.append_assoc]
      rfl
    · next hgone =>
      refine .replied (.write s.cam.replyLen s.cam.reply e) rfl ?_ (by rw [hpc]; rfl)
        (stage_next ctx) ?_
      · simp only [Server.wrote, List.append_assoc, List.cons_append, List.nil_append]
      · intro err herr
        cases herr
        exact Bool.not_eq_true _ ▸ hgone

/-- **What a step adds to the calls.** -/
theorem callStep {s s' : Server} {e : Event} (h : step s e = some s') : CallStep s e s' := by
  cases e with
  | frame ws => exact .quiet (frameStep h).calls (by rw [(frameStep h).pc])
  | tick => exact callStep_tick h
  | ret e => exact callStep_ret h
  | recvd chain stk =>
      obtain ⟨ctx, hpc, rfl⟩ := recvdStep_eq_some h
      refine .received rfl (by rw [hpc]; rfl) ?_
      cases (PollMessage (recvBuf chain) stk s.cam).1
      · exact Or.inl rfl
      · exact Or.inr rfl
      · exact Or.inr rfl
  | recvFail e =>
      obtain ⟨ctx, hpc, ⟨-, rfl⟩ | ⟨-, rfl⟩⟩ := recvFailStep_eq_some h
      · exact .lost [] (by simp) (by rw [List.append_nil]; rfl) (by rw [hpc]; rfl) rfl
      · exact .quiet rfl (by rw [hpc]; exact stage_next ctx)
  | reboot mem =>
      simp only [step, Option.some.injEq] at h
      exact .rebooted mem h.symm

/-! ## Writes -/

/-- The bytes asked for by the write the thread is in. -/
def Server.writeSize (s : Server) : Nat :=
  match s.pc with
  | .logo _ _ => 16
  | .header _ _ g_header => g_header.length
  | .chunk _ _ _ => 1024
  | .tail _ len => len % 1024
  | .endMark _ => 2
  | .reply _ => s.cam.replyLen
  | _ => 0

/-! ## What the thread holds -/

/-- Every netbuf obtained from `netconn_recv` has been passed to `netbuf_delete`
exactly once, every connection accepted has been closed and deleted exactly
once. -/
structure NoLeak (cs : List Call) : Prop where
  netbufs : Settled (· == .recv) (· == .netbuf_delete) cs
  closed : Settled (· == .accept) (· == .close) cs
  deleted : Settled (· == .accept) (· == .delete) cs

/-- `newconn` is open, every earlier connection closed and deleted. -/
structure Serves (cs : List Call) : Prop where
  closed : Pending (· == .accept) (· == .close) cs
  deleted : Pending (· == .accept) (· == .delete) cs

/-- What the thread holds at each stage. -/
def Held (s : Server) : Prop :=
  match s.pc.stage with
  | .listening => NoLeak s.calls
  | .serving => Settled (· == .recv) (· == .netbuf_delete) s.calls ∧ Serves s.calls
  | .replying => Pending (· == .recv) (· == .netbuf_delete) s.calls ∧ Serves s.calls
  | .stopped => Pending (· == .recv) (· == .netbuf_delete) s.calls ∧ Serves s.calls

theorem ne_of_isWrite {c d : Call} (hc : c.isWrite = true) (hd : d.isWrite = false) : c ≠ d := by
  intro h
  rw [h, hd] at hc
  cases hc

/-- A write neither obtains nor gives back. -/
theorem others_of_isWrite {cs : List Call} (hcs : ∀ c ∈ cs, c.isWrite = true) {a r : Call}
    (ha : a.isWrite = false) (hr : r.isWrite = false) : Others (· == a) (· == r) cs := by
  intro c hc
  exact ⟨beq_false_of_ne (ne_of_isWrite (hcs c hc) ha),
    beq_false_of_ne (ne_of_isWrite (hcs c hc) hr)⟩

theorem Serves.append {cs ds : List Call} (h : Serves cs)
    (hds : ∀ d ∈ ds, d ≠ .accept ∧ d ≠ .close ∧ d ≠ .delete) : Serves (cs ++ ds) where
  closed := h.closed.append fun d hd =>
    ⟨beq_false_of_ne (hds d hd).1, beq_false_of_ne (hds d hd).2.1⟩
  deleted := h.deleted.append fun d hd =>
    ⟨beq_false_of_ne (hds d hd).1, beq_false_of_ne (hds d hd).2.2⟩

/-- Giving up closes and deletes the connection. -/
theorem Serves.giveUp {cs : List Call} (h : Serves cs) :
    Settled (· == .accept) (· == .close) (cs ++ [.close, .delete]) ∧
    Settled (· == .accept) (· == .delete) (cs ++ [.close, .delete]) := by
  have hsplit : cs ++ [.close, .delete] = (cs ++ [.close]) ++ [.delete] := by simp
  rw [hsplit]
  constructor
  · exact (h.closed.released rfl rfl).append (by simp [Others])
  · exact (h.deleted.append (by simp [Others])).released rfl rfl

/-- Writes leave the connection open. -/
theorem Serves.writes {cs ds : List Call} (h : Serves cs) (hds : ∀ d ∈ ds, d.isWrite = true) :
    Serves (cs ++ ds) :=
  h.append fun d hd => ⟨ne_of_isWrite (hds d hd) rfl, ne_of_isWrite (hds d hd) rfl,
    ne_of_isWrite (hds d hd) rfl⟩

theorem held_boot (f : Flash) (mem : FrameBuf → Nat → BitVec 32) : Held (boot f mem) :=
  ⟨settled_nil, settled_nil, settled_nil⟩

/-- No reply write of the step fails for a connection that is gone. -/
def ReplyKept (s : Server) (e : Event) : Prop :=
  ∀ ctx err, s.pc = .reply ctx → e = .ret err → err.gone = false

/-- **A step keeps the balance**, unless it loses a reply. -/
theorem held_step (s : Server) (e : Event) (s' : Server) (h : Held s) (he : ReplyKept s e)
    (hstep : step s e = some s') : Held s' := by
  unfold Held at h
  cases callStep hstep with
  | quiet hcalls hst =>
      rw [Held, hcalls, hst]
      exact h
  | accepted hcalls hst hst' =>
      rw [hst] at h
      rw [Held, hst', hcalls]
      exact ⟨h.netbufs.append (by simp [Others]), h.closed.obtained rfl, h.deleted.obtained rfl⟩
  | wrote c hc hcalls hst hst' =>
      rw [hst] at h
      have hcs : ∀ d ∈ [c], d.isWrite = true := by simpa using hc
      rw [Held, hst', hcalls]
      exact ⟨h.1.append (others_of_isWrite hcs rfl rfl), h.2.writes hcs⟩
  | lost cs hcs hcalls hst hst' =>
      rw [hst] at h
      have hst'' : s'.pc.stage = .listening := by rw [hst']; rfl
      rw [Held, hst'', hcalls]
      obtain ⟨hclosed, hdeleted⟩ := (h.2.writes hcs).giveUp
      exact ⟨(h.1.append (others_of_isWrite hcs rfl rfl)).append (by simp [Others]), hclosed,
        hdeleted⟩
  | received hcalls hst hst' =>
      rw [hst] at h
      have hheld : Pending (· == .recv) (· == .netbuf_delete) s'.calls ∧ Serves s'.calls := by
        rw [hcalls]
        exact ⟨h.1.obtained rfl, h.2.append (by simp)⟩
      rcases hst' with hst' | hst' <;> rw [Held, hst'] <;> exact hheld
  | replied c hc hcalls hst hst' _ =>
      rw [hst] at h
      have hcs : ∀ d ∈ [c], d.isWrite = true := by simpa using hc
      have hsplit : s.calls ++ [c, .netbuf_delete] = (s.calls ++ [c]) ++ [.netbuf_delete] := by simp
      rw [Held, hst', hcalls, hsplit]
      exact ⟨(h.1.append (others_of_isWrite hcs rfl rfl)).released rfl rfl,
        (h.2.writes hcs).append (by simp)⟩
  | dropped ctx err c _ _ hpc _ hev hgone =>
      rw [he ctx err hpc hev] at hgone
      cases hgone
  | rebooted mem hs =>
      rw [hs]
      exact held_boot _ _

/-- When the server accepts, it holds nothing. -/
def NoLeakAtAccept (s : Server) : Prop := s.pc = .accept → NoLeak s.calls

theorem noLeak_of_held (s : Server) (h : Held s) : NoLeakAtAccept s := by
  intro hpc
  rw [Held, hpc] at h
  exact h

/-- A lost reply leaves its buffer behind. -/
theorem held_break (s : Server) (e : Event) (s' : Server) (h : Held s) (he : ¬ ReplyKept s e)
    (hstep : step s e = some s') : ¬ NoLeakAtAccept s' := by
  simp only [ReplyKept, Classical.not_forall] at he
  obtain ⟨ctx, err, hpc, rfl, hgone⟩ := he
  rw [Bool.not_eq_false] at hgone
  have hst : s.pc.stage = .replying := by rw [hpc]; rfl
  rw [Held, hst] at h
  cases callStep hstep with
  | quiet _ hst' =>
      simp only [step, retStep, hpc, hgone, if_true, Option.some.injEq] at hstep
      subst hstep
      rw [hst] at hst'
      cases hst'
  | accepted _ hst' => rw [hst] at hst'; cases hst'
  | wrote _ _ _ hst' => rw [hst] at hst'; cases hst'
  | lost _ _ _ hst' => rw [hst] at hst'; cases hst'
  | received _ hst' => rw [hst] at hst'; cases hst'
  | replied _ _ _ _ _ hkept => rw [hkept err rfl] at hgone; cases hgone
  | dropped _ _ c hc hcalls _ hst' _ _ =>
      intro hno
      have hcs : ∀ d ∈ [c], d.isWrite = true := by simpa using hc
      have hsplit : s.calls ++ [c, .close, .delete] = (s.calls ++ [c]) ++ [.close, .delete] := by
        simp
      have hpend : Pending (· == .recv) (· == .netbuf_delete) s'.calls := by
        rw [hcalls, hsplit]
        exact (h.1.append (others_of_isWrite hcs rfl rfl)).append (by simp [Others])
      exact hpend.not_settled (hno hst').netbufs
  | rebooted mem hs =>
      simp only [step, retStep, hpc, hgone, if_true, Option.some.injEq] at hstep
      rw [hs] at hstep
      have hcalls := congrArg (fun t => t.calls.length) hstep
      simp [Server.giveUp, boot] at hcalls

/-- **Resources**: in a run the server holds no netbuf and no connection whenever it
accepts exactly when no reply write of the run fails with `ERR_CLSD` or
`ERR_RST`. -/
theorem no_leak_iff {f : Flash} {mem : FrameBuf → Nat → BitVec 32} {es : List Event}
    {s : Server} (hrun : run step (boot f mem) es = some s) :
    Along step NoLeakAtAccept (boot f mem) es ↔ Steps step ReplyKept (boot f mem) es :=
  along_iff_steps held_step noLeak_of_held held_break (held_boot f mem) hrun

/-- A client that connects, asks for the rate and closes the connection. -/
def askAndClose : List Event :=
  nextMessage (frameOne .getrat).bytes ++ [.ret .ERR_OK, .tick, .tick, .tick, .recvFail .ERR_CLSD]

theorem no_leak_askAndClose :
    Along step NoLeakAtAccept (boot defaultFlash fun _ _ => 0) askAndClose := by
  have hsome : (run step (boot defaultFlash fun _ _ => 0) askAndClose).isSome = true := by
    decide +kernel
  obtain ⟨s, hrun⟩ := Option.isSome_iff_exists.mp hsome
  have hkept : ∀ e ∈ askAndClose, ∀ err, e = .ret err → err.gone = false := by
    intro e he err herr
    subst herr
    simp only [askAndClose, nextMessage, List.mem_append, List.mem_cons, List.not_mem_nil,
      or_false, reduceCtorEq, Event.ret.injEq, or_self] at he
    rw [he]
    rfl
  exact (no_leak_iff hrun).mpr (steps_of_steps (fun _ _ _ _ _ _ => trivial)
    (fun s e _ hQ _ err _ herr => hQ err herr) trivial ((steps_iff_forall_mem hrun).mpr hkept))

/-- The client is gone when the reply to its message is written: the netbuf is never
deleted. -/
theorem netbuf_leaked :
    ¬ ∀ (f : Flash) (mem : FrameBuf → Nat → BitVec 32) (es : List Event) (s : Server),
      run step (boot f mem) es = some s → s.pc = .accept → NoLeak s.calls := by
  intro h
  have hend : (run step (boot defaultFlash fun _ _ => 0)
      (nextMessage (frameOne .getrat).bytes ++ [.ret .ERR_RST])).map
      (fun s => (s.pc, tally (· == .recv) (· == .netbuf_delete) s.calls)) =
        some (.accept, [0]) := by decide +kernel
  obtain ⟨s, hrun, hs⟩ := Option.map_eq_some_iff.mp hend
  obtain ⟨hpc, htally⟩ := Prod.mk.inj hs
  have hone := (h _ _ _ s hrun hpc).netbufs
  unfold Settled at hone
  rw [htally] at hone
  exact absurd (hone 0 List.mem_cons_self) (by decide)

end NetCamera
