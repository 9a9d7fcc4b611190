import NetCamera.Server.Reassembly
import NetCamera.Server.Replies

/-!
# NetCamera.Server.Stream

The byte stream of the clients, and the record at the end of a run.

A received buffer is polled once: the frame it starts with is executed, what
follows is dropped, and nothing is carried over (`parseFrame_recvBuf`).  Over a
run the record is that of boot with these commands applied in order
(`record_of_run`), so two ways of cutting a stream agree when they put the same
frames at the start of a buffer (`same_frames_same_record`), and a reboot keeps
what the commands have stored unless it looks like an erased flash
(`reboot_keeps_iff`).
-/

namespace NetCamera

open Run

/-! ## The receive buffer -/

/-- **One frame a buffer**: the command found in a received buffer is the frame the
received bytes start with, however they are chained. -/
theorem parseFrame_recvBuf {chain : List (List UInt8)} {f : Frame} :
    parseFrame (recvBuf chain) = some f ↔
      f.bytes <+: chain.flatten ++ List.replicate 2000 0 := by
  have hlen : f.bytes.length ≤ 2000 := by
    have := f.para_le
    rw [f.length_bytes]
    omega
  rw [parseFrame_eq_some_iff, recvBuf_elems, List.prefix_take_iff]
  exact and_iff_left hlen

/-! ## Commands -/

/-- What changes the record: a frame that is executed (over the locals found), and a
reboot. -/
inductive Command where
  | exec (f : Frame) (stk : Stack)
  | reboot

/-- The record after the execution of a frame: what the handler hands over is
stored, nothing when it does not return. -/
def Frame.store (f : Frame) (stk : Stack) (p : SavePara) : SavePara :=
  match setCases f.cmd with
  | some (handler, store) =>
    match handler (f.stack stk) with
    | some r => store r.RtnValue p
    | none => p
  | none => p

/-- The record after a command. -/
def Command.apply (p : SavePara) : Command → SavePara
  | exec f stk => f.store stk p
  | reboot => bootRule p

/-- The commands of an event: a received buffer has the one that passes the checks
of `PollMessage`. -/
def Event.commands : Event → List Command
  | recvd chain stk =>
    match parseFrame (recvBuf chain) with
    | some f => [.exec f stk]
    | none => []
  | reboot _ => [.reboot]
  | _ => []

/-- The commands executed in a run, in order. -/
def executed (es : List Event) : List Command := es.flatMap Event.commands

/-- `PollMessage` leaves the record that the frame stores. -/
theorem SaveParaList_execFrame {s : Cam} (h : CamOk s) (f : Frame) (stk : Stack) :
    (execFrame f stk s).2.SaveParaList = f.store stk s.SaveParaList := by
  have hsome := setCases_isSome f.cmd
  cases hset : f.cmd.isSet with
  | false =>
      obtain ⟨s', hex, hack⟩ := execFrame_get hset stk h.text_le
      rw [hset, Option.isSome_eq_false_iff, Option.isNone_iff_eq_none] at hsome
      rw [hex, Frame.store, hsome, Cam.SaveParaList, hack.para, Cam.SaveParaList]
  | true =>
      rw [hset] at hsome
      obtain ⟨⟨handler, store⟩, hcase⟩ := Option.isSome_iff_exists.mp hsome
      rw [Frame.store, hcase]
      rcases execFrame_set hset stk s with ⟨hsw, hex⟩ | ⟨RtnLen, s1, s', hsw, hex, hack⟩
      · simp only [switchCmd, hcase, Option.map_eq_none_iff] at hsw
        simp only [hex, hsw]
        rfl
      · simp only [switchCmd, hcase, Option.map_eq_some_iff] at hsw
        obtain ⟨r, hr, hs1⟩ := hsw
        simp only [hex, hr, Cam.SaveParaList, hack.para, ← (Prod.mk.inj hs1).2]
        rfl

/-- What a step does, by the commands of its event. -/
inductive CommandStep (s : Server) (e : Event) (s' : Server) : Prop where
  /-- No command: record and registers stay. -/
  | idle (he : e.commands = []) (hrecord : s'.cam.SaveParaList = s.cam.SaveParaList)
      (hregs : s'.cam.regs = s.cam.regs)
  /-- A frame is executed. -/
  | exec (f : Frame) (stk : Stack) (he : e.commands = [.exec f stk])
      (hcam : s'.cam = (execFrame f stk s.cam).2)
  /-- The camera reboots. -/
  | reboot (mem : FrameBuf → Nat → BitVec 32) (he : e.commands = [.reboot])
      (hs : s' = boot s.cam.flash mem)

/-- Every step executes the command of its event, if it has one. -/
theorem commandStep {s s' : Server} {e : Event} (h : CamOk s.cam) (hstep : step s e = some s') :
    CommandStep s e s' := by
  have hnone (he : ∀ chain stk, e ≠ .recvd chain stk) (hboot : ∀ mem, e ≠ .reboot mem) :
      e.commands = [] := by
    cases e with
    | recvd chain stk => exact absurd rfl (he chain stk)
    | reboot mem => exact absurd rfl (hboot mem)
    | _ => rfl
  cases camStep hstep with
  | same hcam _ he hboot => exact .idle (hnone he hboot) (by rw [hcam]) (by rw [hcam])
  | reload hcam _ he hboot =>
      rw [h.synced] at hcam
      exact .idle (hnone he hboot) (by rw [hcam]) (by rw [hcam])
  | cleared _ _ _ he _ hcam =>
      exact .idle (by rw [he]; rfl) (by rw [hcam]; rfl) (by rw [hcam])
  | polled ctx chain stk _ he hcam =>
      subst he
      cases hf : parseFrame (recvBuf chain) with
      | none =>
          rw [PollMessage_reject hf] at hcam
          exact .idle (by rw [Event.commands, hf]) (by rw [hcam]; rfl) (by rw [hcam])
      | some f =>
          rw [PollMessage_frame hf] at hcam
          exact .exec f stk (by rw [Event.commands, hf]) hcam
  | rebooted mem he hs => exact .reboot mem (by rw [he]; rfl) hs

/-- One step applies its commands to the record. -/
theorem record_step (s : Server) (e : Event) (s' : Server) (h : CamOk s.cam)
    (hstep : step s e = some s') : CamOk s'.cam ∧
      s'.cam.SaveParaList = e.commands.foldl Command.apply s.cam.SaveParaList := by
  refine ⟨camOk_step s e s' h hstep, ?_⟩
  cases commandStep h hstep with
  | idle he hrecord _ => rw [he, hrecord]; rfl
  | exec f stk he hcam =>
      rw [he, hcam]
      exact SaveParaList_execFrame h f stk
  | reboot mem he hs =>
      rw [he, hs, SaveParaList_boot, effective_eq, h.record]
      rfl

/-- **The record of a run**: that of the boot with the executed commands applied in
order. -/
theorem record_of_run {f : Flash} {mem : FrameBuf → Nat → BitVec 32} {es : List Event}
    {s : Server} (hrun : run step (boot f mem) es = some s) :
    s.cam.SaveParaList = (executed es).foldl Command.apply (effective f) := by
  rw [← SaveParaList_boot f mem]
  exact (run_refines record_step (camOk_boot f mem) hrun).2

/-! ## Cutting the stream -/

/-- The buffers received in `es` start with the frames of the commands `cs`, each in a
buffer of its own; buffers that start with no frame come in between. -/
inductive Delivers : List Command → List Event → Prop where
  | nil : Delivers [] []
  | frame {f : Frame} {stk : Stack} {chain : List (List UInt8)} {cs : List Command}
      {es : List Event} (hf : f.bytes <+: chain.flatten ++ List.replicate 2000 0)
      (h : Delivers cs es) : Delivers (.exec f stk :: cs) (.recvd chain stk :: es)
  | junk {stk : Stack} {chain : List (List UInt8)} {cs : List Command} {es : List Event}
      (hf : ∀ f : Frame, ¬ f.bytes <+: chain.flatten ++ List.replicate 2000 0)
      (h : Delivers cs es) : Delivers cs (.recvd chain stk :: es)
  | reboot {mem : FrameBuf → Nat → BitVec 32} {cs : List Command} {es : List Event}
      (h : Delivers cs es) : Delivers (.reboot :: cs) (.reboot mem :: es)
  | other {e : Event} {cs : List Command} {es : List Event}
      (he : ∀ chain stk, e ≠ .recvd chain stk) (hboot : ∀ mem, e ≠ .reboot mem)
      (h : Delivers cs es) : Delivers cs (e :: es)

/-- The server executes the frames its buffers start with. -/
theorem executed_of_delivers {cs : List Command} {es : List Event} (h : Delivers cs es) :
    executed es = cs := by
  induction h with
  | nil => rfl
  | frame hf _ ih =>
      rw [executed, List.flatMap_cons, Event.commands, parseFrame_recvBuf.mpr hf]
      exact congrArg _ ih
  | @junk stk chain cs es hf _ ih =>
      have hnone : parseFrame (recvBuf chain) = none := by
        cases hp : parseFrame (recvBuf chain) with
        | none => rfl
        | some f => exact absurd (parseFrame_recvBuf.mp hp) (hf f)
      rw [executed, List.flatMap_cons, Event.commands, hnone]
      exact ih
  | reboot _ ih => exact congrArg (Command.reboot :: ·) ih
  | @other e cs es he hboot _ ih =>
      rw [executed, List.flatMap_cons]
      cases e with
      | recvd chain stk => exact absurd rfl (he chain stk)
      | reboot mem => exact absurd rfl (hboot mem)
      | _ => exact ih

/-- **Cutting the stream**: two runs whose buffers start with the same frames, whatever
follows the frames and however the buffers are chained, execute the same commands
in the same order and end with the same record, in RAM and on flash. -/
theorem same_frames_same_record {f : Flash} {mem₁ mem₂ : FrameBuf → Nat → BitVec 32}
    {es₁ es₂ : List Event} {s₁ s₂ : Server}
    (hrun₁ : run step (boot f mem₁) es₁ = some s₁) (hrun₂ : run step (boot f mem₂) es₂ = some s₂)
    {cs : List Command} (h₁ : Delivers cs es₁) (h₂ : Delivers cs es₂) :
    executed es₁ = cs ∧ executed es₂ = cs ∧ s₁.cam.SaveParaList = s₂.cam.SaveParaList ∧
      flashRecord s₁.cam.flash = flashRecord s₂.cam.flash := by
  have hcs₁ := executed_of_delivers h₁
  have hcs₂ := executed_of_delivers h₂
  have hrecord : s₁.cam.SaveParaList = s₂.cam.SaveParaList := by
    rw [record_of_run hrun₁, record_of_run hrun₂, hcs₁, hcs₂]
  refine ⟨hcs₁, hcs₂, hrecord, ?_⟩
  rw [flashRecord_of_run hrun₁, flashRecord_of_run hrun₂, hrecord]

/-- The bytes received in a run. -/
def stream (es : List Event) : List UInt8 :=
  es.flatMap fun e => match e with
    | .recvd chain _ => chain.flatten
    | _ => []

/-- The same frame in one piece and in two, with bytes behind it. -/
theorem same_record_setrat : ∃ s₁ s₂,
    run step (boot defaultFlash fun _ _ => 0) (nextMessage (frameOne .setrat).bytes) = some s₁ ∧
    run step (boot defaultFlash fun _ _ => 0) (firstRecv ++
      [.recvd [(frameOne .setrat).bytes.take 9, (frameOne .setrat).bytes.drop 9 ++ [1, 2]]
        zeroStack]) = some s₂ ∧
    flashRecord s₁.cam.flash = flashRecord s₂.cam.flash := by
  have hsome₁ : (run step (boot defaultFlash fun _ _ => 0)
      (nextMessage (frameOne .setrat).bytes)).isSome = true := by decide +kernel
  have hsome₂ : (run step (boot defaultFlash fun _ _ => 0) (firstRecv ++
      [.recvd [(frameOne .setrat).bytes.take 9, (frameOne .setrat).bytes.drop 9 ++ [1, 2]]
        zeroStack])).isSome = true := by decide +kernel
  obtain ⟨s₁, hrun₁⟩ := Option.isSome_iff_exists.mp hsome₁
  obtain ⟨s₂, hrun₂⟩ := Option.isSome_iff_exists.mp hsome₂
  have hone : (frameOne .setrat).bytes <+:
      [(frameOne .setrat).bytes].flatten ++ List.replicate 2000 0 := by
    rw [List.flatten_singleton]
    exact List.prefix_append _ _
  have htwo : (frameOne .setrat).bytes <+: [(frameOne .setrat).bytes.take 9,
      (frameOne .setrat).bytes.drop 9 ++ [1, 2]].flatten ++ List.replicate 2000 0 := by
    rw [List.flatten_cons, List.flatten_singleton, ← List.append_assoc, List.take_append_drop,
      List.append_assoc]
    exact List.prefix_append _ _
  have hd {chain : List (List UInt8)}
      (h : (frameOne .setrat).bytes <+: chain.flatten ++ List.replicate 2000 0) :
      Delivers [.exec (frameOne .setrat) zeroStack] (firstRecv ++ [.recvd chain zeroStack]) :=
    .other nofun nofun (.other nofun nofun (.other nofun nofun (.other nofun nofun
      (.frame h .nil))))
  exact ⟨s₁, s₂, hrun₁, hrun₂, (same_frames_same_record hrun₁ hrun₂ (hd hone) (hd htwo)).2.2.2⟩

/-- Two frames in one buffer: the second is dropped. -/
theorem stream_dropped :
    ¬ ∀ (f : Flash) (mem : FrameBuf → Nat → BitVec 32) (es₁ es₂ : List Event) (s₁ s₂ : Server)
      (fs : List Frame), run step (boot f mem) es₁ = some s₁ → run step (boot f mem) es₂ = some s₂ →
        stream es₁ = fs.flatMap Frame.bytes → stream es₂ = fs.flatMap Frame.bytes →
        (∀ chain stk, .recvd chain stk ∈ es₁ ++ es₂ → stk = zeroStack) →
          s₁.cam.SaveParaList = s₂.cam.SaveParaList := by
  intro h
  have hend₁ : (run step (boot defaultFlash fun _ _ => 0)
      (nextMessage ((frameOne .setpol).bytes ++ (frameOne .setrat).bytes))).map
      (fun s => s.cam.SaveParaList.rate) = some 30 := by decide +kernel
  have hend₂ : (run step (boot defaultFlash fun _ _ => 0)
      (nextMessage (frameOne .setpol).bytes ++ nextMessage (frameOne .setrat).bytes)).map
      (fun s => s.cam.SaveParaList.rate) = some 1 := by decide +kernel
  obtain ⟨s₁, hrun₁, hs₁⟩ := Option.map_eq_some_iff.mp hend₁
  obtain ⟨s₂, hrun₂, hs₂⟩ := Option.map_eq_some_iff.mp hend₂
  have heq := h _ _ _ _ s₁ s₂ [frameOne .setpol, frameOne .setrat] hrun₁ hrun₂
    (by decide +kernel) (by decide +kernel) (fun chain stk hmem => ?_)
  · rw [heq, hs₂] at hs₁
    cases hs₁
  · simp only [nextMessage, List.mem_append, List.mem_cons, List.not_mem_nil, or_false,
      reduceCtorEq, false_or, Event.recvd.injEq] at hmem
    rcases hmem with hmem | hmem | hmem <;> exact hmem.2

/-! ## Reboots -/

/-- **Settings and reboots**: in every reachable state a reboot brings back
`SaveParaList` exactly when not both `mode` and `cap` are `0xff`. -/
theorem reboot_keeps_iff {f : Flash} {mem : FrameBuf → Nat → BitVec 32} {es : List Event}
    {s s' : Server} (hrun : run step (boot f mem) es = some s)
    {mem' : FrameBuf → Nat → BitVec 32} (hboot : step s (.reboot mem') = some s') :
    s'.cam.SaveParaList = s.cam.SaveParaList ↔
      ¬ (s.cam.SaveParaList.mode = 0xff ∧ s.cam.SaveParaList.cap = 0xff) := by
  have hrecord := (record_step s _ s' (camOk_run hrun) hboot).2
  rw [hrecord]
  exact bootRule_eq_self_iff s.cam.SaveParaList

theorem reboot_keeps_setrat : ∃ s s',
    run step (boot defaultFlash fun _ _ => 0) (nextMessage (frameOne .setrat).bytes) = some s ∧
    step s (.reboot fun _ _ => 0) = some s' ∧ s'.cam.SaveParaList = s.cam.SaveParaList := by
  have hend : (run step (boot defaultFlash fun _ _ => 0)
      (nextMessage (frameOne .setrat).bytes)).map (fun s => s.cam.SaveParaList.mode) =
      some 99 := by decide +kernel
  obtain ⟨s, hrun, hmode⟩ := Option.map_eq_some_iff.mp hend
  refine ⟨s, _, hrun, rfl, (reboot_keeps_iff hrun rfl).mpr fun h => ?_⟩
  rw [hmode] at h
  exact absurd h.1 (by decide)

/-- `setmod:255` and `setcap:255` make the next boot take the defaults. -/
theorem reboot_loses :
    ¬ ∀ (f : Flash) (mem mem' : FrameBuf → Nat → BitVec 32) (es : List Event) (s s' : Server),
      run step (boot f mem) es = some s → step s (.reboot mem') = some s' →
        s'.cam.SaveParaList = s.cam.SaveParaList := by
  intro h
  have hend : (run step (boot defaultFlash fun _ _ => 0)
      (nextMessage (frameBytes .setmod ['2', '5', '5']) ++
        nextMessage (frameBytes .setcap ['2', '5', '5']))).map
      (fun s => (s.cam.SaveParaList.mode, (step s (.reboot fun _ _ => 0)).map fun s' =>
        s'.cam.SaveParaList.mode)) = some (255, some 99) := by decide +kernel
  obtain ⟨s, hrun, hs⟩ := Option.map_eq_some_iff.mp hend
  obtain ⟨hmode, hs'⟩ := Prod.mk.inj hs
  obtain ⟨s', hboot, hmode'⟩ := Option.map_eq_some_iff.mp hs'
  have heq := h _ _ _ _ s s' hrun hboot
  rw [heq, hmode] at hmode'
  cases hmode'

end NetCamera
