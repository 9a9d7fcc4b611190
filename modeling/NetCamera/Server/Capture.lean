import NetCamera.Store
import NetCamera.Server.Step

/-!
# NetCamera.Server.Capture

The handover of captured frames to the server thread.

`Capture` is the part of the state that the interrupt and the thread share, with
the one operation of the interrupt, and `Zone` is how far the thread is with an
image; `capStep` is what each step of the machine does to the two.  From it
follow when the DMA stays out of the buffer that is being sent
(`no_torn_image_iff`) and when the length sent is that of the frame in the
buffer (`image_length`).
-/

namespace NetCamera

open Run

/-! ## The shared state -/

/-- The other of the two buffers. -/
def FrameBuf.other : FrameBuf → FrameBuf
  | jpeg_data_buf => jpeg_data_buf2
  | jpeg_data_buf2 => jpeg_data_buf

theorem FrameBuf.ne_iff_eq_other {b t : FrameBuf} : b ≠ t ↔ b = t.other := by
  cases b <;> cases t <;> decide

theorem FrameBuf.other_other (b : FrameBuf) : b.other.other = b := by
  cases b <;> rfl

/-- The state shared by the interrupt and the thread. -/
structure Capture where
  ok : JpegOk
  len : Nat
  flag : Bool
  target : FrameBuf
  cap : FrameBuf → Option Nat

/-- A frame of `n` words: stored in the target, its length kept unless an earlier
frame is still unsent, and the buffers switched. -/
def Capture.frame (n : Nat) (c : Capture) : Capture where
  ok := .ready
  len := if c.ok = .ready then c.len else n % jpeg_buf_size
  flag := !c.flag
  target := if c.flag then .jpeg_data_buf else .jpeg_data_buf2
  cap := fun b => if b = c.target then some n else c.cap b

/-- The shared part of the server's state. -/
def Server.capture (s : Server) : Capture :=
  ⟨s.jpeg_data_ok, s.jpeg_data_len, s.buf_flag, s.target, s.cap⟩

/-- The interrupt does to the shared state what `Capture.frame` says. -/
theorem capture_jpeg_data_process (ws : List (BitVec 32)) (s : Server) :
    (jpeg_data_process ws s).capture = s.capture.frame ws.length := by
  have hmod : ws.length % jpeg_buf_size ≤ jpeg_buf_size :=
    Nat.le_of_lt (Nat.mod_lt _ (by decide))
  cases hok : s.jpeg_data_ok <;>
    simp [jpeg_data_process, Server.capture, Capture.frame, hok, Nat.sub_sub_self hmod]

/-! ## How far the thread is -/

/-- How far the thread is with an image: it has none, has chosen the buffer, is
sending it, or has stopped. -/
inductive Zone where
  | waiting
  | chosen (b : FrameBuf)
  | sending (b : FrameBuf)
  | off
  deriving DecidableEq, Repr

/-- The buffer taken for an image, from the readiness test to `jpeg_data_ok=2`. -/
def Zone.buf : Zone → Option FrameBuf
  | chosen b => some b
  | sending b => some b
  | _ => none

def Pc.zone : Pc → Zone
  | readLen b => .chosen b
  | logo b _ => .sending b
  | header b _ _ => .sending b
  | chunk b _ _ => .sending b
  | tail b _ => .sending b
  | endMark b => .sending b
  | recv (.image b) => .sending b
  | reply (.image b) => .sending b
  | ack b => .sending b
  | reset => .off
  | fault => .off
  | _ => .waiting

/-- The event tells that the connection is gone. -/
def Event.gone : Event → Bool
  | ret e => e.gone
  | recvFail e => e == .ERR_CLSD
  | _ => false

/-- The event is a frame interrupt. -/
def Event.isFrame : Event → Bool
  | frame _ => true
  | _ => false

/-- The effect of a step on the shared state and on the position. -/
inductive CapStep (s : Server) (e : Event) (s' : Server) : Prop where
  /-- A frame was captured. -/
  | frame (ws : List (BitVec 32)) (he : e = .frame ws) (hpc : s'.pc = s.pc)
      (hcap : s'.capture = s.capture.frame ws.length)
  /-- The thread goes on with no image. -/
  | wait (he : e.isFrame = false) (hz : s.pc.zone = .waiting)
      (hz' : s'.pc.zone = .waiting ∨ s'.pc.zone = .off) (hcap : s'.capture = s.capture)
  /-- The readiness test for `b` is passed. -/
  | choose (b : FrameBuf) (he : e = .tick) (hz : s.pc.zone = .waiting)
      (hok : s.jpeg_data_ok = .ready) (hflag : s.buf_flag = true ↔ b = .jpeg_data_buf)
      (hpc : s'.pc = .readLen b) (hcap : s'.capture = s.capture)
  /-- The length is read. -/
  | start (b : FrameBuf) (he : e = .tick) (hpc : s.pc = .readLen b)
      (hpc' : s'.pc = .logo b (s.jpeg_data_len * 4 % 2 ^ 32)) (hcap : s'.capture = s.capture)
  /-- The thread goes on with the image. -/
  | send (b : FrameBuf) (he : e.isFrame = false) (hgone : e.gone = false)
      (hz : s.pc.zone = .sending b) (hz' : s'.pc.zone = .sending b ∨ s'.pc.zone = .off)
      (hcap : s'.capture = s.capture)
  /-- The connection is given up in the middle of an image. -/
  | lost (b : FrameBuf) (he : e.isFrame = false) (hgone : e.gone = true)
      (hz : s.pc.zone = .sending b) (hz' : s'.pc.zone = .waiting) (hcap : s'.capture = s.capture)
  /-- `jpeg_data_ok=2`. -/
  | acked (b : FrameBuf) (he : e = .tick) (hz : s.pc.zone = .sending b)
      (hz' : s'.pc.zone = .waiting) (hcap : s'.capture = { s.capture with ok := .processed })
  /-- The camera reboots. -/
  | rebooted (mem : FrameBuf → Nat → BitVec 32) (he : e = .reboot mem)
      (hs : s' = boot s.cam.flash mem)

theorem goOn_capture (s : Server) (e : Err) (pc : Pc) : (s.goOn e pc).capture = s.capture := by
  unfold Server.goOn
  split <;> rfl

theorem goOn_of_gone {s : Server} {e : Err} {pc : Pc} (h : e.gone = true) :
    (s.goOn e pc).pc = .accept := by
  rw [Server.goOn, if_pos h]
  rfl

theorem goOn_of_not_gone {s : Server} {e : Err} {pc : Pc} (h : e.gone = false) :
    (s.goOn e pc).pc = pc := by
  rw [Server.goOn, h]
  rfl

theorem zone_chunkPc (b : FrameBuf) (len i : Nat) : (chunkPc b len i).zone = .sending b := by
  unfold chunkPc
  split <;> rfl

/-- A call made for an image: the thread goes on with it or gives the connection up. -/
theorem capStep_goOn {s t : Server} {e : Err} {b : FrameBuf} {pc : Pc}
    (hz : s.pc.zone = .sending b) (hz' : pc.zone = .sending b) (hcap : t.capture = s.capture) :
    CapStep s (.ret e) (t.goOn e pc) := by
  have hcap' := (goOn_capture t e pc).trans hcap
  cases hgone : e.gone with
  | true => exact .lost b rfl hgone hz (by rw [goOn_of_gone hgone]; rfl) hcap'
  | false => exact .send b rfl hgone hz (Or.inl (by rw [goOn_of_not_gone hgone, hz'])) hcap'

theorem capStep_tick {s s' : Server} (h : tickStep s = some s') : CapStep s .tick s' := by
  cases hpc : s.pc <;> simp only [tickStep, hpc, Option.some.injEq, reduceCtorEq] at h <;> subst h
  case check1 =>
    by_cases hready : s.jpeg_data_ok = .ready ∧ s.buf_flag = true
    · simp only [if_pos hready]
      exact .choose .jpeg_data_buf rfl (by rw [hpc]; rfl) hready.1 (by simp [hready.2]) rfl rfl
    · simp only [if_neg hready]
      exact .wait rfl (by rw [hpc]; rfl) (Or.inl rfl) rfl
  case check2 =>
    by_cases hready : s.jpeg_data_ok = .ready ∧ s.buf_flag = false
    · simp only [if_pos hready]
      exact .choose .jpeg_data_buf2 rfl (by rw [hpc]; rfl) hready.1 (by simp [hready.2]) rfl rfl
    · simp only [if_neg hready]
      exact .wait rfl (by rw [hpc]; rfl) (Or.inl rfl) rfl
  case readLen b => exact .start b rfl hpc rfl rfl
  case idle =>
    refine .wait rfl (by rw [hpc]; rfl) (Or.inl ?_) (goOn_capture _ _ _)
    rcases goOn_pc s s.err (.recv .idle) with h | h <;> rw [h] <;> rfl
  case ack b => cases b <;> exact .acked _ rfl (by rw [hpc]; rfl) rfl rfl

theorem capStep_ret {s s' : Server} {e : Err} (h : retStep s e = some s') :
    CapStep s (.ret e) s' := by
  cases hpc : s.pc <;> simp only [retStep, hpc, reduceCtorEq] at h
  case accept =>
    split at h <;> simp only [Option.some.injEq] at h <;> subst h
    · exact .wait rfl (by rw [hpc]; rfl) (Or.inl rfl) rfl
    · exact .wait rfl (by rw [hpc]; rfl) (Or.inl rfl) rfl
  case logo b len =>
    split at h <;> simp only [Option.some.injEq] at h <;> subst h
    · next hgone => exact .lost b rfl hgone (by rw [hpc]; rfl) rfl rfl
    · next hgone =>
      exact .send b rfl (Bool.not_eq_true _ ▸ hgone) (by rw [hpc]; rfl) (Or.inl rfl) rfl
  case header b len g_header =>
    simp only [Option.some.injEq] at h
    subst h
    exact capStep_goOn (by rw [hpc]; rfl) (zone_chunkPc b len 0) rfl
  case chunk b len i =>
    split at h <;> simp only [Option.some.injEq] at h <;> subst h
    · exact capStep_goOn (by rw [hpc]; rfl) rfl rfl
    · next hok =>
      have hgone : e.gone = false := by rw [Classical.not_not.mp hok]; rfl
      exact .send b rfl hgone (by rw [hpc]; rfl) (Or.inl (zone_chunkPc b len (i + 1))) rfl
  case tail b len =>
    split at h
    · cases h
    · simp only [Option.some.injEq] at h
      subst h
      exact capStep_goOn (by rw [hpc]; rfl) rfl rfl
  case endMark b =>
    simp only [Option.some.injEq] at h
    subst h
    exact capStep_goOn (by rw [hpc]; rfl) rfl rfl
  case reply ctx =>
    split at h <;> simp only [Option.some.injEq] at h <;> subst h
    · next hgone =>
      cases ctx with
      | image b => exact .lost b rfl hgone (by rw [hpc]; rfl) rfl rfl
      | idle => exact .wait rfl (by rw [hpc]; rfl) (Or.inl rfl) rfl
    · next hgone =>
      cases ctx with
      | image b =>
          exact .send b rfl (Bool.not_eq_true _ ▸ hgone) (by rw [hpc]; rfl) (Or.inl rfl) rfl
      | idle => exact .wait rfl (by rw [hpc]; rfl) (Or.inl rfl) rfl

theorem capStep_recvd {s s' : Server} {chain : List (List UInt8)} {stk : Stack}
    (h : recvdStep s chain stk = some s') : CapStep s (.recvd chain stk) s' := by
  obtain ⟨ctx, hpc, rfl⟩ := recvdStep_eq_some h
  cases ctx with
  | image b =>
      refine .send b rfl rfl (by rw [hpc]; rfl) ?_ rfl
      cases (PollMessage (recvBuf chain) stk s.cam).1
      · exact Or.inl rfl
      · exact Or.inr rfl
      · exact Or.inr rfl
  | idle =>
      refine .wait rfl (by rw [hpc]; rfl) ?_ rfl
      cases (PollMessage (recvBuf chain) stk s.cam).1
      · exact Or.inl rfl
      · exact Or.inr rfl
      · exact Or.inr rfl

theorem capStep_recvFail {s s' : Server} {e : Err} (h : recvFailStep s e = some s') :
    CapStep s (.recvFail e) s' := by
  obtain ⟨ctx, hpc, ⟨hclsd, rfl⟩ | ⟨hclsd, rfl⟩⟩ := recvFailStep_eq_some h
  · have hgone : (Event.recvFail e).gone = true := by rw [hclsd]; rfl
    cases ctx with
    | image b => exact .lost b rfl hgone (by rw [hpc]; rfl) rfl rfl
    | idle => exact .wait rfl (by rw [hpc]; rfl) (Or.inl rfl) rfl
  · have hgone : (Event.recvFail e).gone = false := beq_false_of_ne hclsd
    cases ctx with
    | image b => exact .send b rfl hgone (by rw [hpc]; rfl) (Or.inl rfl) rfl
    | idle => exact .wait rfl (by rw [hpc]; rfl) (Or.inl rfl) rfl

/-- **Every step does one of eight things to the shared state.** -/
theorem capStep {s s' : Server} {e : Event} (h : step s e = some s') : CapStep s e s' := by
  cases e with
  | frame ws =>
      rw [frame_eq_some h]
      exact .frame ws rfl (frameStep_jpeg_data_process ws s).pc (capture_jpeg_data_process ws s)
  | tick => exact capStep_tick h
  | ret e => exact capStep_ret h
  | recvd chain stk => exact capStep_recvd h
  | recvFail e => exact capStep_recvFail h
  | reboot mem =>
      simp only [step, Option.some.injEq] at h
      exact .rebooted mem rfl h.symm

/-! ## Torn images -/

/-- The DMA target is not the buffer taken for an image. -/
def NotTorn (s : Server) : Prop := ∀ b, s.pc.zone.buf = some b → s.target ≠ b

/-- No frame interrupt comes between the readiness test and `jpeg_data_ok=2`. -/
def NoFrameInImage (s : Server) (e : Event) : Prop :=
  (∃ ws, e = .frame ws) → s.pc.zone.buf = none

/-- `buf_flag` tells the target. -/
def FlagOk (c : Capture) : Prop := c.flag = true ↔ c.target = .jpeg_data_buf2

theorem flagOk_frame (n : Nat) (c : Capture) : FlagOk (c.frame n) := by
  rw [FlagOk, Capture.frame]
  cases c.flag <;> simp

theorem flagOk_boot (f : Flash) (mem : FrameBuf → Nat → BitVec 32) :
    FlagOk (boot f mem).capture := by
  unfold FlagOk
  exact ⟨nofun, nofun⟩

/-- A frame switches the target. -/
theorem target_frame {c : Capture} (h : FlagOk c) (n : Nat) :
    (c.frame n).target = c.target.other := by
  unfold FlagOk at h
  cases hflag : c.flag <;> cases htarget : c.target <;>
    simp_all [Capture.frame, FrameBuf.other]

/-- The readiness test takes the buffer that is not the target. -/
theorem target_ne_of_flag {c : Capture} (h : FlagOk c) {b : FrameBuf}
    (hflag : c.flag = true ↔ b = .jpeg_data_buf) : c.target ≠ b := by
  rw [FlagOk, hflag] at h
  cases b <;> cases htarget : c.target <;> simp_all

/-- `FlagOk` in every state. -/
theorem flagOk_step (s : Server) (e : Event) (s' : Server) (h : FlagOk s.capture)
    (hstep : step s e = some s') : FlagOk s'.capture := by
  cases capStep hstep with
  | frame ws _ _ hcap => rw [hcap]; exact flagOk_frame _ _
  | wait _ _ _ hcap => rw [hcap]; exact h
  | choose b _ _ _ _ _ hcap => rw [hcap]; exact h
  | start b _ _ _ hcap => rw [hcap]; exact h
  | send b _ _ _ _ hcap => rw [hcap]; exact h
  | lost b _ _ _ _ hcap => rw [hcap]; exact h
  | acked b _ _ _ hcap => rw [hcap]; exact h
  | rebooted mem _ hs => rw [hs]; exact flagOk_boot _ _

/-- `NotTorn`, with the flag that makes the next test choose right. -/
def TearInv (s : Server) : Prop := FlagOk s.capture ∧ NotTorn s

theorem notTorn_of_waiting {s : Server} (h : s.pc.zone = .waiting) : NotTorn s := by
  intro b hb
  rw [h] at hb
  cases hb

theorem notTorn_of_off {s : Server} (h : s.pc.zone = .off) : NotTorn s := by
  intro b hb
  rw [h] at hb
  cases hb

/-- Going on with the same image keeps the target out of it. -/
theorem notTorn_of_eq {s s' : Server} (h : NotTorn s) (hcap : s'.capture = s.capture)
    (hz : s'.pc.zone.buf = s.pc.zone.buf) : NotTorn s' := by
  intro b hb
  have htarget : s'.target = s.target := congrArg Capture.target hcap
  rw [htarget]
  exact h b (hz ▸ hb)

theorem tearInv_step (s : Server) (e : Event) (s' : Server) (h : TearInv s)
    (he : NoFrameInImage s e) (hstep : step s e = some s') : TearInv s' := by
  refine ⟨flagOk_step s e s' h.1 hstep, ?_⟩
  cases capStep hstep with
  | frame ws hev hpc _ =>
      intro b hb
      rw [hpc, he ⟨ws, hev⟩] at hb
      cases hb
  | wait _ _ hz' _ => exact hz'.elim notTorn_of_waiting notTorn_of_off
  | choose b _ _ _ hflag hpc hcap =>
      intro b' hb'
      rw [hpc] at hb'
      have htarget : s'.target = s.target := congrArg Capture.target hcap
      rw [← Option.some.inj hb', htarget]
      exact target_ne_of_flag h.1 hflag
  | start b _ hpc hpc' hcap => exact notTorn_of_eq h.2 hcap (by rw [hpc, hpc']; rfl)
  | send b _ _ hz hz' hcap =>
      rcases hz' with hz' | hz'
      · exact notTorn_of_eq h.2 hcap (by rw [hz, hz'])
      · exact notTorn_of_off hz'
  | lost b _ _ _ hz' _ => exact notTorn_of_waiting hz'
  | acked b _ _ hz' _ => exact notTorn_of_waiting hz'
  | rebooted mem _ hs => rw [hs]; exact notTorn_of_waiting rfl

/-- A frame in the middle of an image makes its buffer the target. -/
theorem tearInv_break (s : Server) (e : Event) (s' : Server) (h : TearInv s)
    (he : ¬ NoFrameInImage s e) (hstep : step s e = some s') : ¬ NotTorn s' := by
  rw [NoFrameInImage, Classical.not_imp] at he
  obtain ⟨⟨ws, rfl⟩, hbuf⟩ := he
  obtain ⟨b, hb⟩ := Option.ne_none_iff_exists'.mp hbuf
  cases capStep hstep with
  | frame ws _ hpc hcap =>
      intro htorn
      have htarget : s'.target = (s.capture.frame ws.length).target :=
        congrArg Capture.target hcap
      refine htorn b (by rw [hpc, hb]) ?_
      rw [htarget, target_frame h.1]
      exact (FrameBuf.ne_iff_eq_other.mp (h.2 b hb).symm).symm
  | wait hne => cases hne
  | choose _ hev => cases hev
  | start _ hev => cases hev
  | send _ hne => cases hne
  | lost _ hne => cases hne
  | acked _ hev => cases hev
  | rebooted _ hev => cases hev

/-- **Torn images**: in a run the DMA target is never the buffer taken for an image
exactly when no frame interrupt comes between a readiness test that is passed and
its `jpeg_data_ok=2`. -/
theorem no_torn_image_iff {f : Flash} {mem : FrameBuf → Nat → BitVec 32} {es : List Event}
    {s : Server} (hrun : run step (boot f mem) es = some s) :
    Along step NotTorn (boot f mem) es ↔ Steps step NoFrameInImage (boot f mem) es := by
  have h0 : TearInv (boot f mem) := ⟨flagOk_boot f mem, notTorn_of_waiting rfl⟩
  exact along_iff_steps tearInv_step (fun _ h => h.2) tearInv_break h0 hrun

/-- A frame of three words, a client, and the test that finds the frame. -/
def oneImage : List Event := [.frame [1, 2, 3], .ret .ERR_OK, .tick]

theorem no_torn_image_one :
    Along step NotTorn (boot defaultFlash fun _ _ => 0) oneImage := by
  have hsome : (run step (boot defaultFlash fun _ _ => 0) oneImage).isSome = true := by
    decide +kernel
  obtain ⟨s, hrun⟩ := Option.isSome_iff_exists.mp hsome
  refine (no_torn_image_iff hrun).mpr ?_
  refine ⟨fun _ => rfl, fun s₁ h₁ => ⟨nofun, fun s₂ h₂ => ⟨nofun, fun s₃ h₃ => trivial⟩⟩⟩

/-- A second frame while the first is sent comes into its buffer: the third will
overwrite it. -/
theorem torn_image :
    ¬ ∀ (f : Flash) (mem : FrameBuf → Nat → BitVec 32) (es : List Event) (s : Server)
      (b : FrameBuf), run step (boot f mem) es = some s → s.pc.zone.buf = some b →
        s.target ≠ b := by
  intro h
  have hend : (run step (boot defaultFlash fun _ _ => 0) (oneImage ++ [.tick, .frame [4]])).map
      (fun s => (s.pc.zone.buf, s.target)) = some (some .jpeg_data_buf, .jpeg_data_buf) := by
    decide +kernel
  obtain ⟨s, hrun, hs⟩ := Option.map_eq_some_iff.mp hend
  obtain ⟨hbuf, htarget⟩ := Prod.mk.inj hs
  exact h _ _ _ s _ hrun hbuf htarget

/-! ## The length of an image -/

/-- The frame captured last has the length kept in `jpeg_data_len`. -/
def Capture.Matched (c : Capture) : Prop := c.cap c.target.other = some c.len

/-- Where an image would be taken, or is being taken, its length is that of the
frame in its buffer. -/
def Paired (s : Server) : Prop :=
  match s.pc.zone with
  | .waiting => s.jpeg_data_ok = .ready → s.capture.Matched
  | .chosen b => s.cap b = some s.jpeg_data_len
  | _ => True

/-- What keeps length and frame together: a frame fits into its buffer; one that comes
while an earlier one waits for a client or for its test has the same length, and
so has one that comes into a buffer just chosen; and a connection is not lost in
the middle of an image behind which a frame of another length was captured. -/
def LengthKept (s : Server) (e : Event) : Prop :=
  match s.pc.zone with
  | .waiting => ∀ ws, e = .frame ws →
      if s.jpeg_data_ok = .ready then ws.length = s.jpeg_data_len else ws.length < jpeg_buf_size
  | .chosen b => ∀ ws, e = .frame ws → s.target = b → ws.length = s.jpeg_data_len
  | .sending _ => e.gone = true → s.capture.Matched
  | .off => True

/-- `Paired`, with what makes the next test and the next frame keep it. -/
structure PairInv (s : Server) : Prop where
  flag : FlagOk s.capture
  len_lt : s.jpeg_data_len < jpeg_buf_size
  ready : s.pc.zone.buf.isSome = true → s.jpeg_data_ok = .ready
  paired : Paired s

/-- A frame leaves the shared state matched when it has the length kept, and, if it
sets that length, when it fits into the buffer. -/
theorem matched_frame_iff {c : Capture} (h : FlagOk c) (n : Nat) :
    (c.frame n).Matched ↔ if c.ok = .ready then n = c.len else n < jpeg_buf_size := by
  rw [Capture.Matched, target_frame h, FrameBuf.other_other]
  simp only [Capture.frame, if_true, Option.some.injEq]
  split
  · exact Iff.rfl
  · constructor
    · intro hn
      rw [hn]
      exact Nat.mod_lt _ (by decide)
    · exact fun hn => (Nat.mod_eq_of_lt hn).symm

theorem len_frame_lt {c : Capture} (h : c.len < jpeg_buf_size) (n : Nat) :
    (c.frame n).len < jpeg_buf_size := by
  simp only [Capture.frame]
  split
  · exact h
  · exact Nat.mod_lt _ (by decide)

/-- A frame keeps the pairing exactly when it satisfies `LengthKept`. -/
theorem paired_frame_iff {s s' : Server} {ws : List (BitVec 32)} (h : PairInv s)
    (hpc : s'.pc = s.pc) (hcap : s'.capture = s.capture.frame ws.length) :
    Paired s' ↔ LengthKept s (.frame ws) := by
  have hok : s'.jpeg_data_ok = .ready := congrArg Capture.ok hcap
  have hlen : s'.jpeg_data_len = (s.capture.frame ws.length).len := congrArg Capture.len hcap
  have hcap' : s'.cap = (s.capture.frame ws.length).cap := congrArg Capture.cap hcap
  have hready := h.ready
  have hpaired := h.paired
  unfold Paired at hpaired ⊢
  rw [LengthKept, hpc]
  cases hz : s.pc.zone with
  | waiting =>
      simp only [hok, forall_const, hcap, matched_frame_iff h.flag, Event.frame.injEq,
        forall_eq']
      exact Iff.rfl
  | chosen b =>
      rw [hz] at hready hpaired
      simp only [hlen, hcap', Event.frame.injEq, forall_eq']
      have hok' : s.capture.ok = .ready := hready rfl
      simp only [Capture.frame, hok', if_true]
      by_cases htarget : b = s.capture.target
      · simp only [if_pos htarget, Option.some.injEq]
        exact ⟨fun hn _ => hn, fun hn => hn htarget.symm⟩
      · simp only [if_neg htarget]
        exact ⟨fun _ ht => absurd ht.symm htarget, fun _ => hpaired⟩
  | sending b => exact ⟨fun _ hgone => Bool.noConfusion hgone, fun _ => trivial⟩
  | off => exact Iff.rfl

/-- A step that is no frame and loses no connection satisfies `LengthKept`. -/
theorem lengthKept_of_quiet {s : Server} {e : Event} (hframe : e.isFrame = false)
    (hgone : e.gone = false) : LengthKept s e := by
  have hne : ∀ ws, e ≠ .frame ws := by
    intro ws hev
    rw [hev] at hframe
    cases hframe
  unfold LengthKept
  split
  · exact fun ws hev => absurd hev (hne ws)
  · exact fun ws hev => absurd hev (hne ws)
  · exact fun h => Bool.noConfusion (hgone.symm.trans h)
  · trivial

theorem paired_of_waiting {s : Server} (hz : s.pc.zone = .waiting)
    (h : s.jpeg_data_ok = .ready → s.capture.Matched) : Paired s := by
  rw [Paired, hz]
  exact h

theorem paired_of_off {s : Server} (hz : s.pc.zone = .off) : Paired s := by
  rw [Paired, hz]
  trivial

theorem paired_of_sending {s : Server} {b : FrameBuf} (hz : s.pc.zone = .sending b) :
    Paired s := by
  rw [Paired, hz]
  trivial

theorem pairInv_boot (f : Flash) (mem : FrameBuf → Nat → BitVec 32) : PairInv (boot f mem) where
  flag := flagOk_boot f mem
  len_lt := by
    have hlen : (boot f mem).jpeg_data_len = 0 := rfl
    rw [hlen]
    decide
  ready := nofun
  paired := paired_of_waiting rfl nofun

/-- A step that leaves the shared state keeps the invariant when the next position
is paired, and its buffer, if it has one, ready. -/
theorem PairInv.of_capture {s s' : Server} (h : PairInv s) (hcap : s'.capture = s.capture)
    (hready : s'.pc.zone.buf.isSome = true → s.jpeg_data_ok = .ready) (hpaired : Paired s') :
    PairInv s' where
  flag := hcap ▸ h.flag
  len_lt := by
    have hlen : s'.jpeg_data_len = s.jpeg_data_len := congrArg Capture.len hcap
    exact hlen ▸ h.len_lt
  ready hbuf := (congrArg Capture.ok hcap).trans (hready hbuf)
  paired := hpaired

/-- The buffer the readiness test takes is paired. -/
theorem paired_of_choose {s s' : Server} {b : FrameBuf} (h : PairInv s)
    (hz : s.pc.zone = .waiting) (hok : s.jpeg_data_ok = .ready)
    (hflag : s.buf_flag = true ↔ b = .jpeg_data_buf) (hpc : s'.pc = .readLen b)
    (hcap : s'.capture = s.capture) : Paired s' := by
  have hpaired := h.paired
  rw [Paired, hz] at hpaired
  have hmatch := hpaired hok
  have hb : b = s.capture.target.other :=
    FrameBuf.ne_iff_eq_other.mp (target_ne_of_flag h.flag hflag).symm
  have hcap' : s'.cap = s.cap := congrArg Capture.cap hcap
  have hlen' : s'.jpeg_data_len = s.jpeg_data_len := congrArg Capture.len hcap
  rw [Paired, hpc]
  simp only [Pc.zone, hcap', hlen', hb]
  exact hmatch

theorem pairInv_step (s : Server) (e : Event) (s' : Server) (h : PairInv s)
    (he : LengthKept s e) (hstep : step s e = some s') : PairInv s' := by
  have hready := h.ready
  have hpaired := h.paired
  unfold Paired at hpaired
  cases capStep hstep with
  | frame ws hev hpc hcap =>
      subst hev
      have hlen : s'.jpeg_data_len = (s.capture.frame ws.length).len := congrArg Capture.len hcap
      refine ⟨flagOk_step s _ s' h.flag hstep, ?_, fun _ => congrArg Capture.ok hcap,
        (paired_frame_iff h hpc hcap).mpr he⟩
      rw [hlen]
      exact len_frame_lt h.len_lt _
  | wait _ hz hz' hcap =>
      rw [hz] at hpaired
      have hok : s'.jpeg_data_ok = s.jpeg_data_ok := congrArg Capture.ok hcap
      refine h.of_capture hcap (fun hbuf => ?_) ?_
      · rcases hz' with hz' | hz' <;> rw [hz'] at hbuf <;> cases hbuf
      · rcases hz' with hz' | hz'
        · exact paired_of_waiting hz' fun hr => by rw [hcap]; exact hpaired (hok ▸ hr)
        · exact paired_of_off hz'
  | choose b _ hz hok hfl hpc hcap =>
      exact h.of_capture hcap (fun _ => hok) (paired_of_choose h hz hok hfl hpc hcap)
  | start b _ hpc hpc' hcap =>
      exact h.of_capture hcap (fun _ => hready (by rw [hpc]; rfl))
        (paired_of_sending (b := b) (by rw [hpc']; rfl))
  | send b _ _ hz hz' hcap =>
      exact h.of_capture hcap (fun _ => hready (by rw [hz]; rfl))
        (hz'.elim paired_of_sending paired_of_off)
  | lost b _ hgone hz hz' hcap =>
      rw [LengthKept, hz] at he
      refine h.of_capture hcap (fun _ => hready (by rw [hz]; rfl))
        (paired_of_waiting hz' fun _ => ?_)
      rw [hcap]
      exact he hgone
  | acked b _ hz hz' hcap =>
      have hlen : s'.jpeg_data_len = s.jpeg_data_len := congrArg Capture.len hcap
      have hok : s'.jpeg_data_ok = .processed := congrArg Capture.ok hcap
      refine ⟨flagOk_step s _ s' h.flag hstep, hlen ▸ h.len_lt, fun hbuf => ?_,
        paired_of_waiting hz' fun hr => ?_⟩
      · rw [hz'] at hbuf
        cases hbuf
      · rw [hok] at hr
        cases hr
  | rebooted mem _ hs => rw [hs]; exact pairInv_boot _ _

theorem pairInv_break (s : Server) (e : Event) (s' : Server) (h : PairInv s)
    (he : ¬ LengthKept s e) (hstep : step s e = some s') : ¬ Paired s' := by
  have hready := h.ready
  cases capStep hstep with
  | frame ws hev hpc hcap =>
      subst hev
      exact fun hpaired => he ((paired_frame_iff h hpc hcap).mp hpaired)
  | wait hframe hz _ _ =>
      rw [LengthKept, hz] at he
      refine absurd (fun ws hev => ?_) he
      rw [hev] at hframe
      cases hframe
  | lost b _ _ hz hz' hcap =>
      -- the frame still marked ready is not the one captured last
      rw [LengthKept, hz, Classical.not_imp] at he
      have hok : s'.jpeg_data_ok = .ready :=
        (congrArg Capture.ok hcap).trans (hready (by rw [hz]; rfl))
      rw [Paired, hz']
      intro hpaired
      exact he.2 (hcap ▸ hpaired hok)
  | send b hframe hgone => exact absurd (lengthKept_of_quiet hframe hgone) he
  | choose b hev => exact absurd (lengthKept_of_quiet (hev ▸ rfl) (hev ▸ rfl)) he
  | start b hev => exact absurd (lengthKept_of_quiet (hev ▸ rfl) (hev ▸ rfl)) he
  | acked b hev => exact absurd (lengthKept_of_quiet (hev ▸ rfl) (hev ▸ rfl)) he
  | rebooted mem hev => exact absurd (lengthKept_of_quiet (hev ▸ rfl) (hev ▸ rfl)) he

/-- **Length and frame**: in a run every image that is or would be taken has the length
of the frame in its buffer exactly when all steps satisfy `LengthKept`. -/
theorem paired_iff {f : Flash} {mem : FrameBuf → Nat → BitVec 32} {es : List Event}
    {s : Server} (hrun : run step (boot f mem) es = some s) :
    Along step Paired (boot f mem) es ↔ Steps step LengthKept (boot f mem) es :=
  along_iff_steps pairInv_step (fun _ h => h.paired) pairInv_break (pairInv_boot f mem) hrun

/-- The length read for an image is that of the frame in its buffer, four bytes a word,
and it is the length put into `send_logo`. -/
def StartsRight (s : Server) (e : Event) : Prop :=
  ∀ b, s.pc = .readLen b → e = .tick → ∃ n s', s.cap b = some n ∧ step s e = some s' ∧
    s'.pc = .logo b (4 * n) ∧ s'.send_logo = sendLogo (4 * n) s.cam.SaveParaList

theorem startsRight_of_pairInv (s : Server) (e : Event) (h : PairInv s) (_ : LengthKept s e) :
    StartsRight s e := by
  intro b hpc he
  subst he
  have hpaired := h.paired
  rw [Paired, hpc] at hpaired
  have hsize : jpeg_buf_size = 64512 := rfl
  have hlen : s.jpeg_data_len * 4 % 2 ^ 32 = 4 * s.jpeg_data_len := by
    have := h.len_lt
    omega
  refine ⟨s.jpeg_data_len, _, hpaired, by rw [step, tickStep, hpc], ?_, ?_⟩ <;> simp only [hlen]

/-- **Image lengths**: in a run whose steps all satisfy `LengthKept`, every image is sent
with the length of the frame that lies in its buffer. -/
theorem image_length {f : Flash} {mem : FrameBuf → Nat → BitVec 32} {es : List Event}
    (hkept : Steps step LengthKept (boot f mem) es) : Steps step StartsRight (boot f mem) es :=
  steps_of_steps pairInv_step startsRight_of_pairInv (pairInv_boot f mem) hkept

theorem image_length_one :
    Steps step StartsRight (boot defaultFlash fun _ _ => 0) (oneImage ++ [.tick]) := by
  refine image_length ⟨?_, fun s₁ _ => ⟨lengthKept_of_quiet rfl rfl, fun s₂ _ =>
    ⟨lengthKept_of_quiet rfl rfl, fun s₃ _ => ⟨lengthKept_of_quiet rfl rfl, fun _ _ =>
      trivial⟩⟩⟩⟩
  intro ws hws
  rw [← Event.frame.inj hws]
  decide

/-- Two frames, of three words and of two, come before a client. -/
def twoFrames : List Event :=
  [.frame [1, 2, 3], .frame [4, 5], .ret .ERR_OK, .tick, .tick, .tick]

/-- The second frame is sent with the length of the first. -/
theorem image_length_stale :
    ¬ ∀ (f : Flash) (mem : FrameBuf → Nat → BitVec 32) (es : List Event),
      (∀ ws, .frame ws ∈ es → ws.length < jpeg_buf_size) →
        Steps step StartsRight (boot f mem) es := by
  intro h
  have hend : (run step (boot defaultFlash fun _ _ => 0) (twoFrames.take 5)).map
      (fun s => (s.pc, s.cap .jpeg_data_buf2, (tickStep s).map Server.pc)) =
      some (.readLen .jpeg_data_buf2, some 2, some (.logo .jpeg_data_buf2 12)) := by
    decide +kernel
  obtain ⟨s, hrun, hs⟩ := Option.map_eq_some_iff.mp hend
  simp only [Prod.mk.injEq, Option.map_eq_some_iff] at hs
  obtain ⟨hpc, hcap, t, ht, htpc⟩ := hs
  have hshort : ∀ ws, .frame ws ∈ twoFrames → ws.length < jpeg_buf_size := by
    intro ws hws
    simp only [twoFrames, List.mem_cons, Event.frame.injEq, reduceCtorEq, List.not_mem_nil,
      or_false] at hws
    rcases hws with rfl | rfl <;> decide
  have hsteps := h defaultFlash (fun _ _ => 0) (twoFrames.take 5 ++ [.tick]) hshort
  obtain ⟨n, s', hn, hs', hlogo, -⟩ := (hsteps.of_append hrun).1 _ hpc rfl
  -- two words lie in the buffer, twelve bytes are announced
  rw [hcap] at hn
  rw [step, ht] at hs'
  rw [← Option.some.inj hs', htpc, ← Option.some.inj hn] at hlogo
  cases hlogo

end NetCamera
