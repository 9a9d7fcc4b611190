import NetCamera.Protocol.Bounds
import NetCamera.Protocol.Residue
import NetCamera.Server.Step

/-!
# NetCamera.Server.Replies

What the server sends back for a message, over whole runs.

`CamOk` is what every step keeps: the text in `ValidCmd` is at most as long as
the longest one printed, and the record in RAM is the one on flash.  From it
follow, for every reachable state, how long a reply is (`reply_in_bounds_iff`),
which messages are answered as the protocol has it (`answered_iff`), and when a
get command answers the same in two states (`get_reply_eq_iff`): `getver` answers the
text its run put into `ValidCmd` last (`text_eq_textLeft`).
-/

namespace NetCamera

open Run

/-! ## The invariant -/

/-- The invariant of the protocol's globals. -/
structure CamOk (s : Cam) : Prop where
  text_le : s.text.length ≤ 55
  synced : loadList s.flash = s.para

/-- The record on flash is `SaveParaList`. -/
theorem CamOk.record {s : Cam} (h : CamOk s) : flashRecord s.flash = s.SaveParaList := by
  rw [flashRecord, h.synced, Cam.SaveParaList]

/-- `PollMessage` keeps the invariant. -/
theorem camOk_PollMessage {s : Cam} (h : CamOk s) (recbuf : RecvBuf) (stk : Stack) :
    CamOk (PollMessage recbuf stk s).2 := by
  cases hf : parseFrame recbuf with
  | none =>
      rw [PollMessage_reject hf]
      exact ⟨h.text_le, h.synced⟩
  | some f =>
      rw [PollMessage_frame hf]
      cases hset : f.cmd.isSet with
      | false =>
          obtain ⟨s', hex, hack⟩ := execFrame_get hset stk h.text_le
          rw [hex]
          refine ⟨?_, ?_⟩
          · rw [hack.text]
            exact length_valueText_le h.text_le f.cmd
          · rw [hack.flash, hack.para]
            exact h.synced
      | true =>
          rcases execFrame_set hset stk s with ⟨-, hex⟩ | ⟨RtnLen, s1, s', -, hex, hack⟩
          · rw [hex]
            exact ⟨h.text_le, h.synced⟩
          · rw [hex]
            refine ⟨?_, ?_⟩
            · rw [hack.text]
              exact Nat.zero_le _
            · rw [hack.flash, hack.para, loadList_saveList]

theorem camOk_boot (f : Flash) (mem : FrameBuf → Nat → BitVec 32) : CamOk (boot f mem).cam :=
  ⟨Nat.zero_le _, rfl⟩

/-- A boot puts its record into effect. -/
theorem SaveParaList_boot (f : Flash) (mem : FrameBuf → Nat → BitVec 32) :
    (boot f mem).cam.SaveParaList = effective f :=
  congrArg ParaRam.SaveParaList (loadList_bootList f)

/-- **Every step keeps the invariant.** -/
theorem camOk_step (s : Server) (e : Event) (s' : Server) (h : CamOk s.cam)
    (hstep : step s e = some s') : CamOk s'.cam := by
  cases camStep hstep with
  | same hcam => rw [hcam]; exact h
  | reload hcam => rw [hcam]; exact ⟨h.text_le, rfl⟩
  | cleared _ _ _ _ _ hcam =>
      rw [hcam]
      exact ⟨Nat.zero_le _, h.synced⟩
  | polled ctx chain stk _ _ hcam => rw [hcam]; exact camOk_PollMessage h _ _
  | rebooted mem _ hs => rw [hs]; exact camOk_boot _ _

/-- The invariant in every reachable state. -/
theorem camOk_run {f : Flash} {mem : FrameBuf → Nat → BitVec 32} {es : List Event} {s : Server}
    (hrun : run step (boot f mem) es = some s) : CamOk s.cam :=
  run_invariant camOk_step (camOk_boot f mem) hrun

/-- In every reachable state the record on flash is `SaveParaList`. -/
theorem flashRecord_of_run {f : Flash} {mem : FrameBuf → Nat → BitVec 32} {es : List Event}
    {s : Server} (hrun : run step (boot f mem) es = some s) :
    flashRecord s.cam.flash = s.cam.SaveParaList :=
  (camOk_run hrun).record

/-! ## The length of a reply -/

/-- A buffer with a known command whose parameter is longer than 20 bytes. -/
def OverLong (recbuf : RecvBuf) : Prop :=
  (commandOf recbuf).isSome = true ∧ 20 < (paramText recbuf).length

instance (recbuf : RecvBuf) : Decidable (OverLong recbuf) := by
  unfold OverLong
  infer_instance

/-- A frame is never over-long. -/
theorem not_overLong_of_frame {recbuf : RecvBuf} {f : Frame} (h : parseFrame recbuf = some f) :
    ¬ OverLong recbuf := by
  intro hover
  have hlen := hover.2
  rw [(fields_of_parseFrame h).para] at hlen
  have := f.para_le
  omega

/-- What a message leaves in `ParaLen`. -/
theorem ParaLen_PollMessage {s : Cam} (h : CamOk s) (hlen : s.ParaLen.toNat ≤ 97)
    {recbuf : RecvBuf} (hover : ¬ OverLong recbuf) (stk : Stack) :
    (PollMessage recbuf stk s).2.ParaLen.toNat ≤ 97 := by
  have hnat : ∀ n ≤ 20, (UInt8.ofNat n).toNat ≤ 97 := by
    intro n hn
    rw [UInt8.toNat_ofNat']
    omega
  cases hf : parseFrame recbuf with
  | none =>
      rw [PollMessage_reject hf]
      simp only [rejectLen]
      cases hc : commandOf recbuf with
      | none => exact hlen
      | some c =>
          have hle : (paramText recbuf).length ≤ 20 := by
            refine Nat.le_of_not_lt fun hlt => hover ⟨by rw [hc]; rfl, hlt⟩
          simp only [if_pos hle]
          exact hnat _ hle
  | some f =>
      rw [PollMessage_frame hf]
      cases hset : f.cmd.isSet with
      | false =>
          obtain ⟨s', hex, hack⟩ := execFrame_get hset stk h.text_le
          have htext := length_valueText_le h.text_le f.cmd
          rw [hex, hack.ParaLen]
          omega
      | true =>
          rcases execFrame_set hset stk s with ⟨-, hex⟩ | ⟨RtnLen, s1, s', -, hex, hack⟩
          · rw [hex]
            exact hnat _ f.para_le
          · rw [hex, hack.ParaLen]
            decide

/-- An over-long message leaves the mark `0xff`. -/
theorem PollMessage_overLong {recbuf : RecvBuf} (hover : OverLong recbuf) (stk : Stack) (s : Cam) :
    PollMessage recbuf stk s = (.returned, { s with ParaLen := 0xff }) := by
  have hf : parseFrame recbuf = none := by
    cases hf : parseFrame recbuf with
    | none => rfl
    | some f => exact absurd hover (not_overLong_of_frame hf)
  obtain ⟨c, hc⟩ := Option.isSome_iff_exists.mp hover.1
  rw [PollMessage_reject hf, rejectLen, hc]
  simp only [if_neg (Nat.not_le.mpr hover.2)]

/-- A reply that is about to be written lies inside `ValidCmd`. -/
def ReplyInBounds (s : Server) : Prop := ∀ ctx, s.pc = .reply ctx → s.cam.replyLen ≤ 100

/-- The event delivers no over-long message. -/
def NotOverLong (e : Event) : Prop :=
  ∀ chain stk, e = .recvd chain stk → ¬ OverLong (recvBuf chain)

/-- `CamOk`, with a `ParaLen` that makes no reply too long. -/
def ReplyInv (s : Server) : Prop := CamOk s.cam ∧ s.cam.ParaLen.toNat ≤ 97

theorem replyInv_step (s : Server) (e : Event) (s' : Server) (h : ReplyInv s)
    (he : NotOverLong e) (hstep : step s e = some s') : ReplyInv s' := by
  refine ⟨camOk_step s e s' h.1 hstep, ?_⟩
  cases camStep hstep with
  | same hcam => rw [hcam]; exact h.2
  | reload hcam => rw [hcam]; exact h.2
  | cleared _ _ _ _ _ hcam => rw [hcam]; exact h.2
  | polled ctx chain stk _ hev hcam =>
      rw [hcam]
      exact ParaLen_PollMessage h.1 h.2 (he chain stk hev) stk
  | rebooted mem _ hs => rw [hs]; exact Nat.zero_le _

theorem replyInv_break (s : Server) (e : Event) (s' : Server) (_ : ReplyInv s)
    (he : ¬ NotOverLong e) (hstep : step s e = some s') : ¬ ReplyInBounds s' := by
  simp only [NotOverLong, Classical.not_forall, Classical.not_not] at he
  obtain ⟨chain, stk, hev, hover⟩ := he
  subst hev
  cases camStep hstep with
  | same _ _ hne => exact absurd rfl (hne chain stk)
  | reload _ _ hne => exact absurd rfl (hne chain stk)
  | cleared _ _ _ hev => cases hev
  | polled ctx chain' stk' _ hev hcam hpc =>
      obtain ⟨rfl, rfl⟩ := Event.recvd.inj hev
      intro hbounds
      rw [PollMessage_overLong hover] at hcam hpc
      have hle := hbounds ctx hpc
      rw [hcam, Cam.replyLen] at hle
      have h255 : (0xff : UInt8).toNat = 255 := rfl
      simp only [h255] at hle
      omega
  | rebooted mem hev => cases hev

theorem replyInv_inBounds (s : Server) (h : ReplyInv s) : ReplyInBounds s := by
  intro ctx _
  have hlen := h.2
  unfold Cam.replyLen
  omega

/-- **Bounds of the replies**: in a run every reply lies inside `ValidCmd` exactly
when no over-long message is received in it. -/
theorem reply_in_bounds_iff {f : Flash} {mem : FrameBuf → Nat → BitVec 32} {es : List Event}
    {s : Server} (hrun : run step (boot f mem) es = some s) :
    Along step ReplyInBounds (boot f mem) es ↔ ∀ e ∈ es, NotOverLong e := by
  have h0 : ReplyInv (boot f mem) := ⟨camOk_boot f mem, Nat.zero_le _⟩
  rw [along_iff_steps replyInv_step replyInv_inBounds replyInv_break h0 hrun,
    steps_iff_forall_mem hrun]

/-- Uninitialised locals that happen to be zero. -/
def zeroStack : Stack := ⟨Buf.fill 20 0, [], Buf.fill 20 0, Buf.fill 8 0⟩

/-- The bytes of a frame with the command `c` and the parameter `para`. -/
def frameBytes (c : Cmd) (para : List Char) : List UInt8 :=
  startText ++ [0, 0, 0, 0] ++ [0, 0, 0, 0] ++ headText ++ c.text ++ CString.ascii para ++ [0] ++
    endText

/-- The frame with the command `c` and the parameter `1`. -/
def frameOne (c : Cmd) : Frame :=
  ⟨Buf.fill 4 0, c, CString.ascii ['1'], by decide, by decide, by decide⟩

/-- The pending accept or reply succeeds, the loop goes around with no image to
send, and a message arrives. -/
def nextMessage (bytes : List UInt8) : List Event :=
  [.ret .ERR_OK, .tick, .tick, .tick, .recvd [bytes] zeroStack]

theorem reply_in_bounds_getver : Along step ReplyInBounds (boot defaultFlash fun _ _ => 0)
    (nextMessage (frameOne .getver).bytes) := by
  have hsome : (run step (boot defaultFlash fun _ _ => 0)
      (nextMessage (frameOne .getver).bytes)).isSome = true := by decide +kernel
  obtain ⟨s, hrun⟩ := Option.isSome_iff_exists.mp hsome
  refine (reply_in_bounds_iff hrun).mpr fun e he chain stk hev => ?_
  simp only [nextMessage, List.mem_cons, List.not_mem_nil, or_false] at he
  subst hev
  simp only [reduceCtorEq, false_or, Event.recvd.injEq] at he
  rw [he.1]
  decide +kernel

/-- A parameter of 21 bytes makes the server write 258 bytes of a 100-byte array. -/
theorem reply_out_of_bounds :
    ¬ ∀ (f : Flash) (mem : FrameBuf → Nat → BitVec 32) (es : List Event) (s : Server)
      (ctx : RecvCtx), run step (boot f mem) es = some s → s.pc = .reply ctx →
        s.cam.replyLen ≤ 100 := by
  intro h
  have hend : (run step (boot defaultFlash fun _ _ => 0)
      (nextMessage (frameBytes .setmod (List.replicate 21 '1')))).map
      (fun s => (s.pc, s.cam.replyLen)) = some (.reply .idle, 258) := by decide +kernel
  obtain ⟨s, hrun, hs⟩ := Option.map_eq_some_iff.mp hend
  obtain ⟨hpc, hlen⟩ := Prod.mk.inj hs
  have hle := h _ _ _ s .idle hrun hpc
  omega

/-! ## Answers -/

/-- The bytes of a write. -/
def Call.written : Call → Option (List UInt8)
  | .write _ bytes _ => some bytes
  | _ => none

/-- What the server writes to the client while it deals with a message, the write
succeeding after the frame interrupts `frames`. -/
def replies (s : Server) (chain : List (List UInt8)) (stk : Stack)
    (frames : List (List (BitVec 32))) : List (List UInt8) :=
  match run step s (.recvd chain stk :: frames.map .frame ++ [.ret .ERR_OK]) with
  | some s' => (s'.calls.drop s.calls.length).filterMap Call.written
  | none => []

/-- Frame interrupts while a reply is under way change neither the protocol's globals
nor the calls made. -/
theorem run_frames (frames : List (List (BitVec 32))) (s : Server) {ctx : RecvCtx}
    (hreply : s.pc = .reply ctx) :
    ∃ s', run step s (frames.map .frame) = some s' ∧ s'.cam = s.cam ∧ s'.pc = .reply ctx ∧
      s'.calls = s.calls := by
  induction frames generalizing s with
  | nil => exact ⟨s, rfl, rfl, hreply, rfl⟩
  | cons ws frames ih =>
      have hf := frameStep_jpeg_data_process ws s
      obtain ⟨s', hrun, hcam, hpc, hcalls⟩ := ih (jpeg_data_process ws s) (hf.pc.trans hreply)
      refine ⟨s', ?_, hcam.trans hf.cam, hpc, hcalls.trans hf.calls⟩
      have hgo : ¬ (s.pc = .reset ∨ s.pc = .fault) := by
        rw [hreply]
        simp
      rw [List.map_cons, run_cons, step, if_neg hgo, Option.bind_some]
      exact hrun

/-- The calls of a reply that is written. -/
theorem retStep_reply {s : Server} {ctx : RecvCtx} (hpc : s.pc = .reply ctx) :
    ∃ s', retStep s .ERR_OK = some s' ∧
      s'.calls = s.calls ++ [.write s.cam.replyLen s.cam.reply .ERR_OK, .netbuf_delete] := by
  have hgone : Err.gone .ERR_OK = false := rfl
  simp only [retStep, hpc, hgone, Bool.false_eq_true, if_false, Option.some.injEq, exists_eq_left']
  simp only [Server.wrote, List.append_assoc, List.cons_append, List.nil_append]

/-- When `PollMessage` returns, one reply is written. -/
theorem replies_eq {s : Server} {ctx : RecvCtx} (hpc : s.pc = .recv ctx)
    (chain : List (List UInt8)) (stk : Stack) (frames : List (List (BitVec 32))) :
    replies s chain stk frames = match (PollMessage (recvBuf chain) stk s.cam).1 with
      | .returned => [(PollMessage (recvBuf chain) stk s.cam).2.reply]
      | _ => [] := by
  rw [replies, List.cons_append, run_cons]
  simp only [step, recvdStep, hpc, Option.bind_some]
  cases hout : (PollMessage (recvBuf chain) stk s.cam).1 with
  | returned =>
      simp only [run_append]
      obtain ⟨s1, hrun, hcam1, hpc1, hcalls1⟩ := run_frames frames
        { s with
          cam := (PollMessage (recvBuf chain) stk s.cam).2
          calls := s.calls ++ [.recv]
          pc := .reply ctx } rfl
      obtain ⟨s2, hstep, hcalls2⟩ := retStep_reply hpc1
      rw [hrun, Option.bind_some, run_cons, step, hstep, Option.bind_some, run_nil]
      simp only [hcalls2, hcalls1, hcam1, List.append_assoc, List.drop_left]
      rfl
  | reset => cases frames <;> rfl
  | fault => cases frames <;> rfl

/-- An acknowledgement of the command `c`. -/
def IsAckOf (c : Cmd) (bytes : List UInt8) : Prop :=
  ∃ AckLen body, bytes = ackFrame c AckLen body

/-- A message is answered as the protocol has it: a frame by exactly one
acknowledgement of its command, anything else by no byte. -/
def Answered (s : Server) (chain : List (List UInt8)) (stk : Stack)
    (frames : List (List (BitVec 32))) : Prop :=
  match parseFrame (recvBuf chain) with
  | some f => ∃ bytes, replies s chain stk frames = [bytes] ∧ IsAckOf f.cmd bytes
  | none => (replies s chain stk frames).flatten = []

/-- A reply has at least three bytes. -/
theorem reply_ne_nil (s : Cam) : s.reply ≠ [] := by
  intro h
  have hlen := congrArg List.length h
  simp only [Cam.reply, Buf.slice, List.drop_zero, List.length_take, Buf.length_elems,
    List.length_nil, Cam.replyLen] at hlen
  omega

/-- **Answers**: in every reachable state a message is answered as the protocol
has it exactly when it is a frame, its command does not end in a reset, and the
scan of its parameter does not run off. -/
theorem answered_iff {f : Flash} {mem : FrameBuf → Nat → BitVec 32} {es : List Event} {s : Server}
    (hrun : run step (boot f mem) es = some s) {ctx : RecvCtx} (hpc : s.pc = .recv ctx)
    (chain : List (List UInt8)) (stk : Stack) (frames : List (List (BitVec 32))) :
    Answered s chain stk frames ↔ ∃ fr, parseFrame (recvBuf chain) = some fr ∧
      fr.cmd.resets = false ∧ (fr.cmd.isSet = true → ¬ RunsOff 8 (fr.stack stk).text) := by
  have hok := camOk_run hrun
  rw [Answered, replies_eq hpc]
  cases hf : parseFrame (recvBuf chain) with
  | none =>
      simp only [PollMessage_reject hf, List.flatten_cons, List.flatten_nil, List.append_nil]
      refine ⟨fun h => absurd h (reply_ne_nil _), fun ⟨fr, hfr, _⟩ => by cases hfr⟩
  | some fr =>
      simp only [PollMessage_frame hf, Option.some.injEq, exists_eq_left']
      cases hset : fr.cmd.isSet with
      | false =>
          obtain ⟨s', hex, hack⟩ := execFrame_get hset stk hok.text_le
          have hreset : fr.cmd.resets = false := by
            cases hc : fr.cmd <;> rw [hc] at hset <;> first | rfl | cases hset
          simp only [hex, hack.reply]
          exact ⟨fun _ => ⟨hreset, nofun⟩, fun _ => ⟨_, rfl, _, _, rfl⟩⟩
      | true =>
          have hfault := execFrame_fault_iff hset stk s.cam
          simp only [forall_const, ← hfault]
          rcases execFrame_set hset stk s.cam with ⟨-, hex⟩ | ⟨RtnLen, s1, s', -, hex, hack⟩
          · simp [hex]
          · cases hreset : fr.cmd.resets with
            | false =>
                simp only [hex, hreset, Bool.false_eq_true, if_false, hack.reply]
                exact ⟨fun _ => ⟨trivial, nofun⟩, fun _ => ⟨_, rfl, _, _, rfl⟩⟩
            | true => simp [hex, hreset]

/-- The events up to the first receive of a client. -/
def firstRecv : List Event := [.ret .ERR_OK, .tick, .tick, .tick]

theorem answered_getrat : ∃ s, run step (boot defaultFlash fun _ _ => 0) firstRecv = some s ∧
    Answered s [(frameOne .getrat).bytes] zeroStack [] := by
  have hend : (run step (boot defaultFlash fun _ _ => 0) firstRecv).map Server.pc =
      some (.recv .idle) := by decide +kernel
  obtain ⟨s, hrun, hpc⟩ := Option.map_eq_some_iff.mp hend
  refine ⟨s, hrun, (answered_iff hrun hpc _ _ _).mpr ?_⟩
  have hf : parseFrame (recvBuf [(frameOne .getrat).bytes]) = some (frameOne .getrat) := by
    decide +kernel
  exact ⟨_, hf, rfl, nofun⟩

/-- A message of one byte gets three bytes back. -/
theorem not_answered :
    ¬ ∀ (f : Flash) (mem : FrameBuf → Nat → BitVec 32) (es : List Event) (s : Server)
      (ctx : RecvCtx), run step (boot f mem) es = some s → s.pc = .recv ctx →
        ∀ chain stk frames, Answered s chain stk frames := by
  intro h
  have hend : (run step (boot defaultFlash fun _ _ => 0) firstRecv).map
      (fun s => (s.pc, (replies s [[0x41]] zeroStack []).flatten)) =
      some (.recv .idle, [0, 0, 0]) := by decide +kernel
  have hf : parseFrame (recvBuf [[0x41]]) = none := by decide +kernel
  obtain ⟨s, hrun, hs⟩ := Option.map_eq_some_iff.mp hend
  obtain ⟨hpc, hreply⟩ := Prod.mk.inj hs
  have hans := h _ _ _ s _ hrun hpc [[0x41]] zeroStack []
  simp only [Answered, hf, hreply, reduceCtorEq] at hans

/-! ## The text that was put last -/

/-- The texts that the event puts into `ValidCmd`: a get command what it prints, except
`getver`, which prints nothing; a set command whose scan returns, a reply that is written and
a boot the empty one. -/
def textsPut (s : Server) : Event → List (List UInt8)
  | .recvd chain stk => match parseFrame (recvBuf chain) with
    | some fr =>
      if fr.cmd.isSet then if RunsOff 8 (fr.stack stk).text then [] else [[]]
      else if fr.cmd = .getver then [] else [valueText fr.cmd s.cam]
    | none => []
  | .ret e => match s.pc with
    | .reply _ => if e.gone then [] else [[]]
    | _ => []
  | .reboot _ => [[]]
  | _ => []

/-- The text that a run from boot puts last, empty if it puts none. -/
def textLeft (f : Flash) (mem : FrameBuf → Nat → BitVec 32) (es : List Event) : List UInt8 :=
  (trace step textsPut (boot f mem) es).getLast?.getD []

/-- What a message does to the text. -/
theorem text_PollMessage {s : Server} (h : CamOk s.cam) (chain : List (List UInt8)) (stk : Stack) :
    (PollMessage (recvBuf chain) stk s.cam).2.text =
      (textsPut s (.recvd chain stk)).getLast?.getD s.cam.text := by
  cases hf : parseFrame (recvBuf chain) with
  | none =>
      rw [PollMessage_reject hf]
      simp only [textsPut, hf]
      rfl
  | some fr =>
      rw [PollMessage_frame hf]
      simp only [textsPut, hf]
      cases hset : fr.cmd.isSet with
      | false =>
          obtain ⟨s', hex, hack⟩ := execFrame_get hset stk h.text_le
          rw [hex, hack.text, if_neg Bool.false_ne_true]
          by_cases hver : fr.cmd = .getver
          · rw [if_pos hver, hver]
            rfl
          · rw [if_neg hver]
            rfl
      | true =>
          rw [if_pos rfl]
          rcases execFrame_set_cases hset stk s.cam with
            ⟨hoff, hex⟩ | ⟨hoff, RtnLen, s1, s', hex, hack⟩
          · rw [hex, if_pos hoff]
            rfl
          · rw [hex, hack.text, if_neg hoff]
            rfl

/-- A step that neither polls, boots nor writes a reply puts no text. -/
theorem textsPut_eq_nil {s : Server} {e : Event} (he : ∀ chain stk, e ≠ .recvd chain stk)
    (hboot : ∀ mem, e ≠ .reboot mem)
    (hreply : ¬ ∃ ctx err, s.pc = .reply ctx ∧ e = .ret err ∧ err.gone = false) :
    textsPut s e = [] := by
  cases e with
  | recvd chain stk => exact absurd rfl (he chain stk)
  | reboot mem => exact absurd rfl (hboot mem)
  | ret err =>
      cases hpc : s.pc with
      | reply ctx =>
          have hgone : err.gone = true :=
            Bool.eq_true_of_not_eq_false fun hkept => hreply ⟨ctx, err, hpc, rfl, hkept⟩
          simp only [textsPut, hpc, hgone, if_true]
      | _ => simp only [textsPut, hpc]
  | _ => rfl

/-- **The text after a step** is the one that the step puts last. -/
theorem text_step {s s' : Server} {e : Event} (h : CamOk s.cam) (hstep : step s e = some s') :
    s'.cam.text = (textsPut s e).getLast?.getD s.cam.text := by
  by_cases hreply : ∃ ctx err, s.pc = .reply ctx ∧ e = .ret err ∧ err.gone = false
  · obtain ⟨ctx, err, hpc, rfl, hkept⟩ := hreply
    simp only [step, retStep, hpc, hkept, Bool.false_eq_true, if_false, Option.some.injEq] at hstep
    simp only [← hstep, textsPut, hpc, hkept, Bool.false_eq_true, if_false]
    rfl
  cases camStep hstep with
  | same hcam _ he hboot => rw [hcam, textsPut_eq_nil he hboot hreply]; rfl
  | reload hcam _ he hboot => rw [hcam, textsPut_eq_nil he hboot hreply]; rfl
  | cleared ctx err hfrom he hkept => exact absurd ⟨ctx, err, hfrom, he, hkept⟩ hreply
  | polled ctx chain stk _ he hcam =>
      rw [hcam, he]
      exact text_PollMessage h chain stk
  | rebooted mem he hs =>
      rw [hs, he]
      rfl

/-- In every reachable state `ValidCmd` holds the text that was put last. -/
theorem text_eq_textLeft {f : Flash} {mem : FrameBuf → Nat → BitVec 32} {es : List Event}
    {s : Server} (hrun : run step (boot f mem) es = some s) : s.cam.text = textLeft f mem es := by
  have h0 : (boot f mem).cam.text = ([] : List (List UInt8)).getLast?.getD [] := rfl
  refine (run_ledger (I := fun s => CamOk s.cam) (L := fun s os => s.cam.text = os.getLast?.getD [])
    (fun s e s' os hok htext hstep => ⟨camOk_step s e s' hok hstep, ?_⟩) (camOk_boot f mem)
    h0 hrun).2
  rw [text_step hok hstep, htext, List.getLast?_append]
  cases (textsPut s e).getLast? <;> rfl

/-! ## Get commands from two states -/

/-- A get command is answered with its value. -/
theorem replies_get {s : Server} (hok : CamOk s.cam) {ctx : RecvCtx} (hpc : s.pc = .recv ctx)
    {chain : List (List UInt8)} {fr : Frame} (hf : parseFrame (recvBuf chain) = some fr)
    (hget : fr.cmd.isSet = false) (stk : Stack) (frames : List (List (BitVec 32))) :
    replies s chain stk frames = [valueReply fr.cmd (valueText fr.cmd s.cam)] := by
  obtain ⟨s', hex, hack⟩ := execFrame_get hget stk hok.text_le
  rw [replies_eq hpc, PollMessage_frame hf, hex, hack.reply]

/-- Only `getver` answers what it finds in `ValidCmd`. -/
theorem valueText_congr {s₁ s₂ : Cam} (hpara : s₁.SaveParaList = s₂.SaveParaList) {c : Cmd}
    (hget : c.isSet = false) :
    valueText c s₁ = valueText c s₂ ↔ c ≠ .getver ∨ s₁.text = s₂.text := by
  by_cases hver : c = .getver
  · subst hver
    simp only [ne_eq, not_true, false_or]
    rfl
  · simp only [ne_eq, hver, not_false_iff, true_or, iff_true]
    rw [valueText, valueText, hpara]
    simp only [hver, if_false]

/-- **Leftover text**: in two reachable states with the same record, a get command is
answered alike exactly when it is not `getver` or `ValidCmd` holds the same text
in both; and that text is in each the one its run put last. -/
theorem get_reply_eq_iff {f₁ f₂ : Flash} {mem₁ mem₂ : FrameBuf → Nat → BitVec 32}
    {es₁ es₂ : List Event} {s₁ s₂ : Server}
    (hrun₁ : run step (boot f₁ mem₁) es₁ = some s₁) (hrun₂ : run step (boot f₂ mem₂) es₂ = some s₂)
    {ctx₁ ctx₂ : RecvCtx} (hpc₁ : s₁.pc = .recv ctx₁) (hpc₂ : s₂.pc = .recv ctx₂)
    (hpara : s₁.cam.SaveParaList = s₂.cam.SaveParaList)
    {chain₁ chain₂ : List (List UInt8)} {fr : Frame}
    (hf₁ : parseFrame (recvBuf chain₁) = some fr) (hf₂ : parseFrame (recvBuf chain₂) = some fr)
    (hget : fr.cmd.isSet = false) (stk₁ stk₂ : Stack) (frames₁ frames₂ : List (List (BitVec 32))) :
    (replies s₁ chain₁ stk₁ frames₁ = replies s₂ chain₂ stk₂ frames₂ ↔
      fr.cmd ≠ .getver ∨ s₁.cam.text = s₂.cam.text) ∧
    s₁.cam.text = textLeft f₁ mem₁ es₁ ∧ s₂.cam.text = textLeft f₂ mem₂ es₂ := by
  refine ⟨?_, text_eq_textLeft hrun₁, text_eq_textLeft hrun₂⟩
  rw [replies_get (camOk_run hrun₁) hpc₁ hf₁ hget, replies_get (camOk_run hrun₂) hpc₂ hf₂ hget,
    ← valueText_congr hpara hget]
  constructor
  · exact fun h => valueReply_inj.mp (List.cons.inj h).1
  · intro htext
    rw [htext]

/-- A client asks for the address, and is gone when the reply is written; the next
client comes as far as its first receive. -/
def lostReply : List Event :=
  nextMessage (frameOne .getipa).bytes ++ [.ret .ERR_CLSD] ++ firstRecv

theorem get_reply_eq_getrat : ∃ s₁ s₂,
    run step (boot defaultFlash fun _ _ => 0) firstRecv = some s₁ ∧
    run step (boot defaultFlash fun _ _ => 0) lostReply = some s₂ ∧
    replies s₁ [(frameOne .getrat).bytes] zeroStack [] =
      replies s₂ [(frameOne .getrat).bytes] zeroStack [] := by
  have hend₁ : (run step (boot defaultFlash fun _ _ => 0) firstRecv).map
      (fun s => (s.pc, s.cam.SaveParaList)) = some (.recv .idle, DefaultList) := by
    decide +kernel
  have hend₂ : (run step (boot defaultFlash fun _ _ => 0) lostReply).map
      (fun s => (s.pc, s.cam.SaveParaList)) = some (.recv .idle, DefaultList) := by
    decide +kernel
  have hf : parseFrame (recvBuf [(frameOne .getrat).bytes]) = some (frameOne .getrat) := by
    decide +kernel
  obtain ⟨s₁, hrun₁, hs₁⟩ := Option.map_eq_some_iff.mp hend₁
  obtain ⟨s₂, hrun₂, hs₂⟩ := Option.map_eq_some_iff.mp hend₂
  obtain ⟨hpc₁, hpara₁⟩ := Prod.mk.inj hs₁
  obtain ⟨hpc₂, hpara₂⟩ := Prod.mk.inj hs₂
  refine ⟨s₁, s₂, hrun₁, hrun₂, ?_⟩
  exact (get_reply_eq_iff hrun₁ hrun₂ hpc₁ hpc₂ (hpara₁.trans hpara₂.symm) hf hf rfl _ _ _ _).1.mpr
    (Or.inl (by decide))

/-- `getver` hands the next client the address the one before was not sent. -/
theorem get_reply_leftover :
    ¬ ∀ (f₁ f₂ : Flash) (mem₁ mem₂ : FrameBuf → Nat → BitVec 32) (es₁ es₂ : List Event)
      (s₁ s₂ : Server) (ctx₁ ctx₂ : RecvCtx), run step (boot f₁ mem₁) es₁ = some s₁ →
        run step (boot f₂ mem₂) es₂ = some s₂ → s₁.pc = .recv ctx₁ → s₂.pc = .recv ctx₂ →
        s₁.cam.SaveParaList = s₂.cam.SaveParaList → ∀ (chain : List (List UInt8)) (fr : Frame),
          parseFrame (recvBuf chain) = some fr → fr.cmd.isSet = false → ∀ stk : Stack,
            replies s₁ chain stk [] = replies s₂ chain stk [] := by
  intro h
  have hend₁ : (run step (boot defaultFlash fun _ _ => 0) firstRecv).map
      (fun s => (s.pc, s.cam.SaveParaList,
        (replies s [(frameOne .getver).bytes] zeroStack []).map List.length)) =
      some (.recv .idle, DefaultList, [28]) := by decide +kernel
  have hend₂ : (run step (boot defaultFlash fun _ _ => 0) lostReply).map
      (fun s => (s.pc, s.cam.SaveParaList,
        (replies s [(frameOne .getver).bytes] zeroStack []).map List.length)) =
      some (.recv .idle, DefaultList, [43]) := by decide +kernel
  have hf : parseFrame (recvBuf [(frameOne .getver).bytes]) = some (frameOne .getver) := by
    decide +kernel
  obtain ⟨s₁, hrun₁, hs₁⟩ := Option.map_eq_some_iff.mp hend₁
  obtain ⟨s₂, hrun₂, hs₂⟩ := Option.map_eq_some_iff.mp hend₂
  simp only [Prod.mk.injEq] at hs₁ hs₂
  have heq := h _ _ _ _ _ _ s₁ s₂ _ _ hrun₁ hrun₂ hs₁.1 hs₂.1 (hs₁.2.1.trans hs₂.2.1.symm) _ _ hf
    rfl zeroStack
  have hlen := hs₁.2.2
  rw [heq, hs₂.2.2] at hlen
  cases hlen

end NetCamera
