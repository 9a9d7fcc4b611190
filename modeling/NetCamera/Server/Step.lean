import NetCamera.Lib.Run
import NetCamera.Jpeg
import NetCamera.Protocol.Ack

/-!
# NetCamera.Server.Step

The server thread and the frame interrupt as one machine.

`tcp_server_thread` is cut at every point where something else can happen: each
`netconn_*` call it makes is a state of the program counter (`Pc`), left by an
event that carries the call's result, and the decisions in between are `tick`
steps.  The frame interrupt (`jpeg_data_process`) is an event of its own and may
come between any two of these; a reboot may come at any time.

What the thread hands to lwIP is kept in `calls`.  Of the captured frames the
machine keeps the words and, in `cap`, how many there were.
-/

namespace NetCamera

open Run

/-! ## lwIP -/

/-- The results of lwIP calls, `err_t`. -/
inductive Err where
  | ERR_OK | ERR_MEM | ERR_BUF | ERR_TIMEOUT | ERR_RTE | ERR_INPROGRESS | ERR_VAL
  | ERR_WOULDBLOCK | ERR_USE | ERR_ISCONN | ERR_ABRT | ERR_RST | ERR_CLSD | ERR_CONN
  | ERR_ARG | ERR_IF
  deriving DecidableEq, Repr

/-- `(err==ERR_CLSD)||(err==ERR_RST)`. -/
def Err.gone (e : Err) : Bool := e == .ERR_CLSD || e == .ERR_RST

/-- The calls on connections and buffers the thread has made, with the results of
those that have one.  A write keeps the length asked for and the bytes of it
that lie in the array given. -/
inductive Call where
  | accept
  | write (size : Nat) (bytes : List UInt8) (e : Err)
  | recv
  | netbuf_delete
  | close
  | delete
  deriving DecidableEq, Repr

/-! ## Frame buffers -/

/-- The two capture buffers. -/
inductive FrameBuf where
  | jpeg_data_buf
  | jpeg_data_buf2
  deriving DecidableEq, Repr

/-- `jpeg_data_ok`: 0, the capture is not complete; 1, complete and not processed;
2, processed, the next frame may start. -/
inductive JpegOk where
  | collecting
  | ready
  | processed
  deriving DecidableEq, Repr

/-- `jpeg_buf_size`, in words. -/
def jpeg_buf_size : Nat := 63 * 1024

/-- What the circular DMA leaves in a buffer after `ws`: the last word that came
to each place. -/
def dmaStore (ws : List (BitVec 32)) (mem : Nat → BitVec 32) : Nat → BitVec 32 := fun i =>
  if i < jpeg_buf_size ∧ i < ws.length then
    ws.getD (i + jpeg_buf_size * ((ws.length - 1 - i) / jpeg_buf_size)) 0
  else mem i

/-- `n` bytes of a buffer from byte `off` on. -/
def imageBytes (mem : Nat → BitVec 32) (off n : Nat) : List UInt8 :=
  (List.range n).map fun k => byteOf (mem ((off + k) / 4)) ((off + k) % 4)

/-! ## The machine -/

/-- Where a `netconn_recv` stands in the loop: behind an image or in the idle
branch. -/
inductive RecvCtx where
  | image (b : FrameBuf)
  | idle
  deriving DecidableEq, Repr

/-- Where the thread stands.  `accept`, `logo`, `header`, `chunk`, `tail`,
`endMark`, `recv` and `reply` are inside a call; `check1` and `check2` are the
two readiness tests, `idle` the branch after both; `ack` is before
`jpeg_data_ok=2`.  `reset` is after a system reset, `fault` after a write
through the null pointer. -/
inductive Pc where
  | accept
  | check1
  | check2
  | readLen (b : FrameBuf)
  | logo (b : FrameBuf) (len : Nat)
  | header (b : FrameBuf) (len : Nat) (g_header : List UInt8)
  | chunk (b : FrameBuf) (len i : Nat)
  | tail (b : FrameBuf) (len : Nat)
  | endMark (b : FrameBuf)
  | idle
  | recv (ctx : RecvCtx)
  | reply (ctx : RecvCtx)
  | ack (b : FrameBuf)
  | reset
  | fault
  deriving DecidableEq, Repr

/-- The state of the server: the globals of the protocol, those of the capture, the
DMA target, the contents of the buffers, the local `err`, the position, and the
calls made. -/
structure Server where
  cam : Cam
  jpeg_data_ok : JpegOk
  jpeg_data_len : Nat
  buf_flag : Bool
  target : FrameBuf
  mem : FrameBuf → Nat → BitVec 32
  cap : FrameBuf → Option Nat
  send_logo : List UInt8
  err : Err
  pc : Pc
  calls : List Call

/-- What can happen: a frame interrupt with the words captured, a decision of the
thread, the result of an accept or a write, a received chain of buffers (with
the uninitialised locals `PollMessage` will find), a receive that fails, a
reboot (with what is then in the SDRAM). -/
inductive Event where
  | frame (ws : List (BitVec 32))
  | tick
  | ret (e : Err)
  | recvd (chain : List (List UInt8)) (stk : Stack)
  | recvFail (e : Err)
  | reboot (mem : FrameBuf → Nat → BitVec 32)

/-! ## Boot -/

/-- The start of `tcp_server_thread` up to its accept loop: the parameters are
initialised, `MT9D111_Jpeg_Config` reads them once more, and `jpeg_test` points
the DMA at the first buffer. -/
def boot (f : Flash) (mem : FrameBuf → Nat → BitVec 32) : Server where
  cam :=
    { para := loadList (bootList f).2, ParaLen := 0, ValidCmd := Buf.fill 100 0
      flash := (bootList f).2, regs := [] }
  jpeg_data_ok := .collecting
  jpeg_data_len := 0
  buf_flag := false
  target := .jpeg_data_buf
  mem := mem
  cap := fun _ => none
  send_logo := startText ++ List.replicate 8 0
  err := .ERR_OK
  pc := .accept
  calls := []

/-! ## The interrupt -/

/-- `jpeg_data_process`.  The DMA has stored the frame in its target; its counter
gives the length.  The target and `buf_flag` are switched in every case. -/
def jpeg_data_process (ws : List (BitVec 32)) (s : Server) : Server :=
  let counter := jpeg_buf_size - ws.length % jpeg_buf_size
  let s := { s with
    mem := fun b => if b = s.target then dmaStore ws (s.mem b) else s.mem b
    cap := fun b => if b = s.target then some ws.length else s.cap b }
  let s := if s.jpeg_data_ok ≠ .ready then
      { s with jpeg_data_len := jpeg_buf_size - counter, jpeg_data_ok := .ready }
    else s
  let s := if s.jpeg_data_ok = .processed then { s with jpeg_data_ok := .collecting } else s
  { s with
    target := if s.buf_flag then .jpeg_data_buf else .jpeg_data_buf2
    buf_flag := !s.buf_flag }

/-! ## The thread -/

/-- `MT9D111_Greate_Header`: reads the parameters from flash and builds the JPEG
header for their size. -/
def MT9D111_Greate_Header (s : Cam) : Cam × List UInt8 :=
  let para := loadList s.flash
  let p := para.SaveParaList
  ({ s with para := para },
    (CreateJpegHeader p.size0.toNat p.size1.toNat .YCBCR422 0x0020 9).bytes)

/-- `send_logo` for an image of `len` bytes. -/
def sendLogo (len : Nat) (p : SavePara) : List UInt8 :=
  startText ++ [UInt8.ofNat len, UInt8.ofNat (len / 256), UInt8.ofNat (len / 65536),
    UInt8.ofNat (len / 16777216), lo p.size0, hi p.size0, lo p.size1, hi p.size1]

/-- `send_end`. -/
def send_end : List UInt8 := [0xff, 0xd9]

/-- The copy loop over a received chain, `data_len` bytes copied so far. -/
def copyChain : List (List UInt8) → Nat → RecvBuf → RecvBuf
  | [], _, buf => buf
  | payload :: q, data_len, buf =>
    let buf := if payload.length > TCP_SERVER_RX_BUFSIZE - data_len then
        buf.write data_len (payload.take (TCP_SERVER_RX_BUFSIZE - data_len))
      else buf.write data_len payload
    if data_len + payload.length > TCP_SERVER_RX_BUFSIZE then buf
    else copyChain q (data_len + payload.length) buf

/-- `tcp_server_recvbuf` for a received chain: cleared, then filled. -/
def recvBuf (chain : List (List UInt8)) : RecvBuf := copyChain chain 0 (Buf.fill _ 0)

namespace Server

/-- A `netconn_write` that returned `e`. -/
def wrote (s : Server) (size : Nat) (bytes : List UInt8) (e : Err) : Server :=
  { s with err := e, calls := s.calls ++ [.write size bytes e] }

/-- `netconn_close`, `netconn_delete` and the `break` to the accept loop. -/
def giveUp (s : Server) : Server :=
  { s with calls := s.calls ++ [.close, .delete], pc := .accept }

/-- The check behind most calls: give the connection up when it is gone, else go
on at `pc`. -/
def goOn (s : Server) (e : Err) (pc : Pc) : Server :=
  if e.gone then s.giveUp else { s with pc := pc }

end Server

/-- Where the loop goes on behind a receive. -/
def RecvCtx.next : RecvCtx → Pc
  | image b => .ack b
  | idle => .check1

/-- The chunk loop at index `i`: another chunk or the rest. -/
def chunkPc (b : FrameBuf) (len i : Nat) : Pc :=
  if i < len / 1024 then .chunk b len i else .tail b len

/-- The decisions of the thread. -/
def tickStep (s : Server) : Option Server :=
  match s.pc with
  | .check1 => some { s with
      pc := if s.jpeg_data_ok = .ready ∧ s.buf_flag = true then .readLen .jpeg_data_buf
        else .check2 }
  | .check2 => some { s with
      pc := if s.jpeg_data_ok = .ready ∧ s.buf_flag = false then .readLen .jpeg_data_buf2
        else .idle }
  | .readLen b =>
    let len := s.jpeg_data_len * 4 % 2 ^ 32
    some { s with send_logo := sendLogo len s.cam.SaveParaList, pc := .logo b len }
  | .idle => some (s.goOn s.err (.recv .idle))
  | .ack b => some { s with
      jpeg_data_ok := .processed
      pc := match b with
        | .jpeg_data_buf => .check2
        | .jpeg_data_buf2 => .check1 }
  | _ => none

/-- The return of an accept or a write.  A write of no bytes returns `ERR_OK`. -/
def retStep (s : Server) (e : Err) : Option Server :=
  match s.pc with
  | .accept =>
    if e = .ERR_OK then some { s with err := e, calls := s.calls ++ [.accept], pc := .check1 }
    else some { s with err := e }
  | .logo b len =>
    let s := s.wrote 16 s.send_logo e
    if e.gone then some s.giveUp
    else
      let (cam, g_header) := MT9D111_Greate_Header s.cam
      some { s with cam := cam, pc := .header b len g_header }
  | .header b len g_header =>
    some ((s.wrote g_header.length g_header e).goOn e (chunkPc b len 0))
  | .chunk b len i =>
    let s := s.wrote 1024 (imageBytes (s.mem b) (i * 1024) 1024) e
    if e ≠ .ERR_OK then some (s.goOn e (.tail b len))
    else some { s with pc := chunkPc b len (i + 1) }
  | .tail b len =>
    let bytes := imageBytes (s.mem b) (len / 1024 * 1024) (len % 1024)
    if len % 1024 = 0 ∧ e ≠ .ERR_OK then none
    else some ((s.wrote (len % 1024) bytes e).goOn e (.endMark b))
  | .endMark b => some ((s.wrote 2 send_end e).goOn e (.recv (.image b)))
  | .reply ctx =>
    let s := s.wrote s.cam.replyLen s.cam.reply e
    if e.gone then some s.giveUp
    else some { s with
      cam := { s.cam with ValidCmd := Buf.fill 100 0 }
      calls := s.calls ++ [.netbuf_delete]
      pc := ctx.next }
  | _ => none

/-- A chain of buffers was received: it is copied together and polled. -/
def recvdStep (s : Server) (chain : List (List UInt8)) (stk : Stack) : Option Server :=
  match s.pc with
  | .recv ctx =>
    let r := PollMessage (recvBuf chain) stk s.cam
    some { s with
      cam := r.2
      calls := s.calls ++ [.recv]
      pc := match r.1 with
        | .returned => .reply ctx
        | .reset => .reset
        | .fault => .fault }
  | _ => none

/-- A receive failed. -/
def recvFailStep (s : Server) (e : Err) : Option Server :=
  match s.pc with
  | .recv ctx =>
    if e = .ERR_OK then none
    else if e = .ERR_CLSD then some s.giveUp
    else some { s with pc := ctx.next }
  | _ => none

/-- One step of the machine. -/
def step (s : Server) : Event → Option Server
  | .frame ws =>
    if s.pc = .reset ∨ s.pc = .fault then none else some (jpeg_data_process ws s)
  | .tick => tickStep s
  | .ret e => retStep s e
  | .recvd chain stk => recvdStep s chain stk
  | .recvFail e => recvFailStep s e
  | .reboot mem => some (boot s.cam.flash mem)

/-- A receive is made in one place, and its buffer polled there. -/
theorem recvdStep_eq_some {s s' : Server} {chain : List (List UInt8)} {stk : Stack}
    (h : recvdStep s chain stk = some s') : ∃ ctx, s.pc = .recv ctx ∧ s' = { s with
      cam := (PollMessage (recvBuf chain) stk s.cam).2
      calls := s.calls ++ [.recv]
      pc := match (PollMessage (recvBuf chain) stk s.cam).1 with
        | .returned => .reply ctx
        | .reset => .reset
        | .fault => .fault } := by
  cases hpc : s.pc <;> simp only [recvdStep, hpc, Option.some.injEq, reduceCtorEq] at h
  next ctx => exact ⟨ctx, rfl, h.symm⟩

/-- A receive that fails gives the connection up or leads to what comes next. -/
theorem recvFailStep_eq_some {s s' : Server} {e : Err} (h : recvFailStep s e = some s') :
    ∃ ctx, s.pc = .recv ctx ∧
      ((e = .ERR_CLSD ∧ s' = s.giveUp) ∨ (e ≠ .ERR_CLSD ∧ s' = { s with pc := ctx.next })) := by
  cases hpc : s.pc <;> simp only [recvFailStep, hpc, reduceCtorEq] at h
  next ctx =>
    refine ⟨ctx, rfl, ?_⟩
    split at h
    · cases h
    · split at h <;> simp only [Option.some.injEq] at h <;> subst h
      · next hclsd => exact Or.inl ⟨hclsd, rfl⟩
      · next hclsd => exact Or.inr ⟨hclsd, rfl⟩

/-! ## What a step does to the protocol's globals -/

/-- The effect of a step on the globals of the protocol. -/
inductive CamStep (s : Server) (e : Event) (s' : Server) : Prop where
  /-- Nothing changes, and no reply is begun. -/
  | same (hcam : s'.cam = s.cam) (hpc : s'.pc = s.pc ∨ ∀ ctx, s'.pc ≠ .reply ctx)
      (he : ∀ chain stk, e ≠ .recvd chain stk) (hboot : ∀ mem, e ≠ .reboot mem)
  /-- `MT9D111_Greate_Header` reloads the parameters. -/
  | reload (hcam : s'.cam = { s.cam with para := loadList s.cam.flash })
      (hpc : ∀ ctx, s'.pc ≠ .reply ctx)
      (he : ∀ chain stk, e ≠ .recvd chain stk) (hboot : ∀ mem, e ≠ .reboot mem)
  /-- A reply was sent and `ValidCmd` cleared. -/
  | cleared (ctx : RecvCtx) (err : Err) (hfrom : s.pc = .reply ctx) (he : e = .ret err)
      (hkept : err.gone = false) (hcam : s'.cam = { s.cam with ValidCmd := Buf.fill 100 0 })
      (hpc : s'.pc = ctx.next)
  /-- A message is polled. -/
  | polled (ctx : RecvCtx) (chain : List (List UInt8)) (stk : Stack) (hfrom : s.pc = .recv ctx)
      (he : e = .recvd chain stk) (hcam : s'.cam = (PollMessage (recvBuf chain) stk s.cam).2)
      (hpc : s'.pc = match (PollMessage (recvBuf chain) stk s.cam).1 with
        | .returned => .reply ctx
        | .reset => .reset
        | .fault => .fault)
  /-- The camera reboots. -/
  | rebooted (mem : FrameBuf → Nat → BitVec 32) (he : e = .reboot mem)
      (hs : s' = boot s.cam.flash mem)

theorem goOn_cam (s : Server) (e : Err) (pc : Pc) : (s.goOn e pc).cam = s.cam := by
  unfold Server.goOn
  split <;> rfl

theorem goOn_pc (s : Server) (e : Err) (pc : Pc) :
    (s.goOn e pc).pc = .accept ∨ (s.goOn e pc).pc = pc := by
  unfold Server.goOn
  split
  · exact Or.inl rfl
  · exact Or.inr rfl

/-- Giving up or going on to a call that is no reply begins no reply. -/
theorem goOn_pc_ne {s : Server} {e : Err} {pc : Pc} (h : ∀ ctx, pc ≠ .reply ctx) (ctx : RecvCtx) :
    (s.goOn e pc).pc ≠ .reply ctx := by
  rcases goOn_pc s e pc with hpc | hpc <;> rw [hpc]
  · nofun
  · exact h ctx

theorem chunkPc_ne (b : FrameBuf) (len i : Nat) (ctx : RecvCtx) : chunkPc b len i ≠ .reply ctx := by
  unfold chunkPc
  split <;> nofun

theorem next_ne (ctx ctx' : RecvCtx) : ctx.next ≠ .reply ctx' := by
  cases ctx <;> nofun

/-- What a frame interrupt leaves to the thread. -/
structure FrameStep (s s' : Server) : Prop where
  pc : s'.pc = s.pc
  calls : s'.calls = s.calls
  err : s'.err = s.err
  cam : s'.cam = s.cam
  send_logo : s'.send_logo = s.send_logo

theorem frameStep_jpeg_data_process (ws : List (BitVec 32)) (s : Server) :
    FrameStep s (jpeg_data_process ws s) := by
  constructor <;> simp only [jpeg_data_process] <;> split <;> split <;> rfl

theorem frame_eq_some {s s' : Server} {ws : List (BitVec 32)} (h : step s (.frame ws) = some s') :
    s' = jpeg_data_process ws s := by
  simp only [step] at h
  split at h
  · cases h
  · exact (Option.some.inj h).symm

theorem frameStep {s s' : Server} {ws : List (BitVec 32)} (h : step s (.frame ws) = some s') :
    FrameStep s s' :=
  frame_eq_some h ▸ frameStep_jpeg_data_process ws s

theorem camStep_tick {s s' : Server} (h : tickStep s = some s') : CamStep s .tick s' := by
  cases hpc : s.pc <;> simp only [tickStep, hpc, Option.some.injEq, reduceCtorEq] at h <;> subst h
  case idle => exact .same (goOn_cam _ _ _) (Or.inr (goOn_pc_ne nofun)) nofun nofun
  case readLen => exact .same rfl (Or.inr nofun) nofun nofun
  case ack b => cases b <;> exact .same rfl (Or.inr nofun) nofun nofun
  all_goals
    refine .same rfl (Or.inr fun ctx => ?_) nofun nofun
    simp only
    split <;> nofun

theorem camStep_ret {s s' : Server} {e : Err} (h : retStep s e = some s') :
    CamStep s (.ret e) s' := by
  cases hpc : s.pc <;> simp only [retStep, hpc, reduceCtorEq] at h
  case accept =>
    split at h <;> simp only [Option.some.injEq] at h <;> subst h
    · exact .same rfl (Or.inr nofun) nofun nofun
    · exact .same rfl (Or.inr nofun) nofun nofun
  case logo b len =>
    split at h <;> simp only [Option.some.injEq] at h <;> subst h
    · exact .same rfl (Or.inr nofun) nofun nofun
    · exact .reload rfl nofun nofun nofun
  case header b len g_header =>
    simp only [Option.some.injEq] at h
    subst h
    exact .same (goOn_cam _ _ _) (Or.inr (goOn_pc_ne (chunkPc_ne b len 0))) nofun nofun
  case chunk b len i =>
    split at h <;> simp only [Option.some.injEq] at h <;> subst h
    · exact .same (goOn_cam _ _ _) (Or.inr (goOn_pc_ne nofun)) nofun nofun
    · exact .same rfl (Or.inr (chunkPc_ne b len (i + 1))) nofun nofun
  case tail b len =>
    split at h
    · cases h
    · simp only [Option.some.injEq] at h
      subst h
      exact .same (goOn_cam _ _ _) (Or.inr (goOn_pc_ne nofun)) nofun nofun
  case endMark b =>
    simp only [Option.some.injEq] at h
    subst h
    exact .same (goOn_cam _ _ _) (Or.inr (goOn_pc_ne nofun)) nofun nofun
  case reply ctx =>
    split at h <;> simp only [Option.some.injEq] at h <;> subst h
    · exact .same rfl (Or.inr nofun) nofun nofun
    · next hkept => exact .cleared ctx e hpc rfl (Bool.eq_false_iff.mpr hkept) rfl rfl

/-- **Every step does one of five things to the protocol's globals.** -/
theorem camStep {s s' : Server} {e : Event} (h : step s e = some s') : CamStep s e s' := by
  cases e with
  | frame ws => exact .same (frameStep h).cam (Or.inl (frameStep h).pc) nofun nofun
  | tick => exact camStep_tick h
  | ret e => exact camStep_ret h
  | recvd chain stk =>
      obtain ⟨ctx, hpc, rfl⟩ := recvdStep_eq_some h
      exact .polled ctx chain stk hpc rfl rfl rfl
  | recvFail e =>
      obtain ⟨ctx, -, ⟨-, rfl⟩ | ⟨-, rfl⟩⟩ := recvFailStep_eq_some h
      · exact .same rfl (Or.inr nofun) nofun nofun
      · exact .same rfl (Or.inr (next_ne ctx)) nofun nofun
  | reboot mem =>
      simp only [step, Option.some.injEq] at h
      exact .rebooted mem rfl h.symm

end NetCamera
