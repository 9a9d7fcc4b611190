import NetCamera.Eth.Transmit

/-!
# NetCamera.Eth.Receive

Frames on their way in: the receive DMA beside `ETH_IRQHandler` with `ethernetif_input`,
`low_level_input` and `HAL_ETH_GetReceivedFrame`.

The DMA stores a frame, with its CRC, in as many buffers of the circle as it takes, and clears
`OWN` in their descriptors; where it finds a descriptor that is not its own it drops what is left
of the frame and is suspended (`RBUS`).  Frames that come meanwhile leave no trace.  The end of a
frame sets the interrupt flag (`R`), and the interrupt routine takes frames from the circle while
the next descriptor holds a whole one.
-/

namespace NetCamera.Eth

open Run Chunks

def ETH_RX_BUF_SIZE : Nat := 1524

def ETH_RXBUFNB : Nat := 10

def PBUF_POOL_BUFSIZE : Nat := 512

/-- `ETH_DMADescTypeDef`, as a receive descriptor. -/
structure RxDescriptor where
  OWN : Bool
  ES : Bool
  FS : Bool
  LS : Bool
  FL : Nat
  deriving DecidableEq, Repr

/-- A frame that the DMA is storing: its bytes with the CRC, whether it is erroneous, and how many
buffers it has filled. -/
structure Incoming where
  frame : List UInt8
  es : Bool
  i : Nat
  deriving DecidableEq, Repr

/-- `ETH_DMARxFrameInfos`; `buffer` is the buffer of `FSRxDesc`. -/
structure RxFrameInfos where
  FSRxDesc : Nat
  SegCount : Nat
  length : UInt32
  deriving DecidableEq, Repr

/-- Where the interrupt routine is; `p` is what `low_level_input` is going to return. -/
inductive RxPc where
  /-- not running -/
  | thread
  /-- at `while(ETH_GetRxPktSize(ETH_Handler.RxDesc))` -/
  | test
  /-- at `HAL_ETH_GetReceivedFrame` -/
  | input
  /-- before the frame is copied -/
  | copy
  /-- in the loop that gives the descriptors back, at number `i` and descriptor `dmarxdesc` -/
  | release (p : Option Chain) (dmarxdesc i : Nat)
  /-- at the test of `ETH_DMASR_RBUS` -/
  | rbus (p : Option Chain)
  /-- back in `ethernetif_input` -/
  | give (p : Option Chain)
  /-- before the interrupt flag is cleared -/
  | clear
  deriving DecidableEq, Repr

/-- The receive side of `ETH_Handler` with its descriptors and buffers, the interrupt flag, and
the DMA: whether it is suspended, the descriptor it comes to next, and the frame it is storing. -/
structure Rx where
  RxDesc : Nat
  RxFrameInfos : RxFrameInfos
  DMARxDscrTab : Nat → RxDescriptor
  Rx_Buff : Nat → Buf UInt8 ETH_RX_BUF_SIZE
  R : Bool
  RBUS : Bool
  dma : Nat
  incoming : Option Incoming
  pc : RxPc

/-- `ETH_GetRxPktSize`. -/
def ETH_GetRxPktSize (DMARxDesc : RxDescriptor) : Nat :=
  if DMARxDesc.OWN = false ∧ DMARxDesc.ES = false ∧ DMARxDesc.LS = true then DMARxDesc.FL else 0

/-- The lengths of the pbufs that `pbuf_alloc(PBUF_RAW, length, PBUF_POOL)` chains behind the
first. -/
def tailLens : Nat → Nat → List Nat
  | 0, _ => []
  | fuel + 1, rem_len =>
      if 0 < rem_len then
        min rem_len PBUF_POOL_BUFSIZE :: tailLens fuel (rem_len - min rem_len PBUF_POOL_BUFSIZE)
      else []

/-- `pbuf_alloc(PBUF_RAW, length, PBUF_POOL)` while `free` pbufs are left in the pool: the lengths
of the chain. -/
def pbuf_alloc (length free : Nat) : Option (List Nat) :=
  let lens := min length PBUF_POOL_BUFSIZE ::
    tailLens length (length - min length PBUF_POOL_BUFSIZE)
  if lens.length ≤ free then some lens else none

/-- The `while` of `low_level_input` and the copy behind it: the bytes of a pbuf, and where it
stops. -/
def readPbuf (bufs : Nat → Buf UInt8 ETH_RX_BUF_SIZE) :
    Nat → Nat → Nat → Nat → List UInt8 × Nat × Nat
  | 0, dmarxdesc, bufferoffset, _ => ([], dmarxdesc, bufferoffset)
  | fuel + 1, dmarxdesc, bufferoffset, byteslefttocopy =>
      if ETH_RX_BUF_SIZE < byteslefttocopy + bufferoffset then
        let r := readPbuf bufs fuel (Ring.next ETH_RXBUFNB dmarxdesc) 0
          (byteslefttocopy - (ETH_RX_BUF_SIZE - bufferoffset))
        ((bufs dmarxdesc).slice bufferoffset (ETH_RX_BUF_SIZE - bufferoffset) ++ r.1, r.2)
      else
        ((bufs dmarxdesc).slice bufferoffset byteslefttocopy, dmarxdesc,
          bufferoffset + byteslefttocopy)

/-- The loop over the chain. -/
def readChain (bufs : Nat → Buf UInt8 ETH_RX_BUF_SIZE) : List Nat → Nat → Nat → Chain
  | [], _, _ => []
  | len :: q, dmarxdesc, bufferoffset =>
      let r := readPbuf bufs (len + bufferoffset + 1) dmarxdesc bufferoffset len
      r.1 :: readChain bufs q r.2.1 r.2.2

namespace Rx

/-- `HAL_ETH_DMARxDescListInit`. -/
def boot (Rx_Buff : Nat → Buf UInt8 ETH_RX_BUF_SIZE) : Rx where
  RxDesc := 0
  RxFrameInfos := ⟨0, 0, 0⟩
  DMARxDscrTab _ := ⟨true, false, false, false, 0⟩
  Rx_Buff := Rx_Buff
  R := false
  RBUS := false
  dma := 0
  incoming := none
  pc := .thread

/-- `HAL_ETH_GetReceivedFrame`: whether it returns `HAL_OK`, and the state. -/
def HAL_ETH_GetReceivedFrame (s : Rx) : Bool × Rx :=
  let desc := s.DMARxDscrTab s.RxDesc
  let info := s.RxFrameInfos
  if desc.OWN = false then
    if desc.LS = true then
      (true, { s with
        RxFrameInfos :=
          { FSRxDesc := if info.SegCount + 1 = 1 then s.RxDesc else info.FSRxDesc
            SegCount := info.SegCount + 1
            length := UInt32.ofNat desc.FL - 4 }
        RxDesc := Ring.next ETH_RXBUFNB s.RxDesc })
    else if desc.FS = true then
      (false, { s with
        RxFrameInfos := { info with FSRxDesc := s.RxDesc, SegCount := 1 }
        RxDesc := Ring.next ETH_RXBUFNB s.RxDesc })
    else
      (false, { s with
        RxFrameInfos := { info with SegCount := info.SegCount + 1 }
        RxDesc := Ring.next ETH_RXBUFNB s.RxDesc })
  else (false, s)

/-- The frame as `low_level_input` copies it, with `free` pbufs left; `len` has 16 bits. -/
def copied (s : Rx) (free : Nat) : Option Chain :=
  let len := s.RxFrameInfos.length.toNat % 2 ^ 16
  if 0 < len then
    (pbuf_alloc len free).map fun lens => readChain s.Rx_Buff lens s.RxFrameInfos.FSRxDesc 0
  else none

/-- The next step of the interrupt routine, with `free` pbufs left in the pool. -/
def isr (s : Rx) (free : Nat) : Option Rx :=
  match s.pc with
  | .thread => none
  | .test =>
      some { s with
        pc := if ETH_GetRxPktSize (s.DMARxDscrTab s.RxDesc) ≠ 0 then .input else .clear }
  | .input =>
      let r := s.HAL_ETH_GetReceivedFrame
      some { r.2 with pc := if r.1 then .copy else .give none }
  | .copy => some { s with pc := .release (s.copied free) s.RxFrameInfos.FSRxDesc 0 }
  | .release p dmarxdesc i =>
      if i < s.RxFrameInfos.SegCount then
        some { s with
          DMARxDscrTab := Function.update s.DMARxDscrTab dmarxdesc
            { s.DMARxDscrTab dmarxdesc with OWN := true }
          pc := .release p (Ring.next ETH_RXBUFNB dmarxdesc) (i + 1) }
      else some { s with RxFrameInfos := { s.RxFrameInfos with SegCount := 0 }, pc := .rbus p }
  | .rbus p => some { s with RBUS := false, pc := .give p }
  | .give _ => some { s with pc := .test }
  | .clear => some { s with R := false, pc := .thread }

/-- The number of buffers a frame takes, less one. -/
def lastPiece (frame : List UInt8) : Nat := (frame.length - 1) / ETH_RX_BUF_SIZE

/-- The DMA at its next descriptor, with a frame to store. -/
def receiveDma (s : Rx) (x : Incoming) : Rx :=
  if (s.DMARxDscrTab s.dma).OWN then
    { s with
      Rx_Buff := Function.update s.Rx_Buff s.dma
        ((s.Rx_Buff s.dma).write 0 (chunk ETH_RX_BUF_SIZE x.i x.frame))
      DMARxDscrTab := Function.update s.DMARxDscrTab s.dma
        ⟨false, x.es, x.i = 0, x.i = lastPiece x.frame, x.frame.length⟩
      dma := Ring.next ETH_RXBUFNB s.dma
      incoming := if x.i = lastPiece x.frame then none else some { x with i := x.i + 1 }
      R := s.R || x.i = lastPiece x.frame }
  else { s with RBUS := true, incoming := none }

end Rx

/-- What can happen on the receive side; the result of `netif->input` comes with the step that
calls it. -/
inductive RxEvent where
  | frame (frame : List UInt8) (es : Bool)
  | dma
  | ETH_IRQHandler
  | isr (free : Nat) (err : Err)
  deriving DecidableEq, Repr

/-- A frame the DMA has begun to store, how many pbufs `low_level_input` found in the pool for a
frame, and what `ethernetif_input` did: it had no pbuf, or it called `netif->input`, whose result
it returns. -/
inductive RxSeen where
  | stored (frame : List UInt8) (es : Bool)
  | found (free : Nat)
  | handled (p : Option Chain) (err : Err)
  deriving DecidableEq, Repr

namespace Rx

/-- One step.  The MAC passes no frame of fewer than 64 bytes. -/
def step (s : Rx) : RxEvent → Option Rx
  | .frame frame es =>
      if s.RBUS = false ∧ s.incoming = none ∧ 64 ≤ frame.length then
        some { s with incoming := some ⟨frame, es, 0⟩ }
      else none
  | .dma => s.incoming.map s.receiveDma
  | .ETH_IRQHandler => if s.R = true ∧ s.pc = .thread then some { s with pc := .test } else none
  | .isr free _ => s.isr free

def seen (s : Rx) : RxEvent → List RxSeen
  | .dma =>
      match s.incoming with
      | some x =>
          if x.i = 0 ∧ (s.DMARxDscrTab s.dma).OWN = true then [.stored x.frame x.es] else []
      | none => []
  | .isr free err =>
      match s.pc with
      | .copy => [.found free]
      | .give none => [.handled none .ERR_MEM]
      | .give (some p) => [.handled (some p) err]
      | _ => []
  | _ => []

end Rx

/-- The frames the DMA has begun to store. -/
def storedFrames (os : List RxSeen) : List (List UInt8 × Bool) :=
  os.filterMap fun
    | .stored frame es => some (frame, es)
    | _ => none

/-- How many pbufs were left for each frame taken. -/
def foundFree (os : List RxSeen) : List Nat :=
  os.filterMap fun
    | .found free => some free
    | _ => none

/-- What was made of the frames taken. -/
def handledFrames (os : List RxSeen) : List (Option Chain) :=
  os.filterMap fun
    | .handled p _ => some p
    | _ => none

end NetCamera.Eth
