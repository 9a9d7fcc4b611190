import NetCamera.Lib.Chunks
import NetCamera.Lib.Run
import NetCamera.Server.Step

/-!
# NetCamera.Eth.Transmit

Frames on their way out: `low_level_output` and `HAL_ETH_TransmitFrame` beside the transmit DMA.

The driver and the DMA share a circle of descriptors, each with a buffer of its own; the bit `OWN`
says whose a descriptor is.  The driver runs with interrupts disabled, but the DMA does not care:
between any two accesses of the driver it may take a descriptor, read its buffer and give it back.
So the driver goes step by step (`Pc`), and the DMA is an event of its own.

The DMA is the one of the reference manual: it works through the circle in order, stops at a
descriptor that is not its own (`TBUS`) and goes on when the driver demands it.
-/

namespace NetCamera.Eth

open Run Chunks

def ETH_TX_BUF_SIZE : Nat := 1524

def ETH_TXBUFNB : Nat := 5

def ETH_DMATXDESC_TBS1 : Nat := 0x1FFF

/-- A chain of pbufs; of each the payload. -/
abbrev Chain := List (List UInt8)

/-- `ETH_DMADescTypeDef`, as a transmit descriptor; `Buffer1Addr` and `Buffer2NextDescAddr` are
the buffer of the same index and the next index of the circle. -/
structure TxDescriptor where
  OWN : Bool
  FS : Bool
  LS : Bool
  ControlBufferSize : Nat
  deriving DecidableEq, Repr

/-- Where `low_level_output` is; `p` is the chain it was called with. -/
inductive TxPc where
  /-- in no call -/
  | thread
  /-- at the head of the loop over the chain, of which `q` is left -/
  | chain (p q : Chain) (DmaTxDesc bufferoffset framelength : Nat)
  /-- at the condition of the `while`, with `payload` of the pbuf left to copy -/
  | piece (p : Chain) (payload : List UInt8) (q : Chain) (DmaTxDesc bufferoffset framelength : Nat)
  /-- before the test of the descriptor it has just gone on to -/
  | moved (p : Chain) (payload : List UInt8) (q : Chain) (DmaTxDesc framelength : Nat)
  /-- at `HAL_ETH_TransmitFrame` -/
  | transmit (p : Chain) (framelength : Nat)
  /-- in there, before the descriptor number `i` of the frame is set up -/
  | hand (p : Chain) (framelength i : Nat)
  /-- at the test of `ETH_DMASR_TBUS` -/
  | poll (p : Chain)
  deriving DecidableEq, Repr

/-- The transmit side of `ETH_Handler` with its descriptors and buffers, and the DMA: the
descriptor it comes to next, whether it is suspended (`ETH_DMASR_TBUS`), what it has read of a
frame, and the frames it has sent. -/
structure Tx where
  TxDesc : Nat
  DMATxDscrTab : Nat → TxDescriptor
  Tx_Buff : Nat → Buf UInt8 ETH_TX_BUF_SIZE
  TBUS : Bool
  dma : Nat
  frame : List UInt8
  wire : List (List UInt8)
  pc : TxPc

/-- The number of descriptors a frame takes. -/
def bufcount (FrameLength : Nat) : Nat :=
  if ETH_TX_BUF_SIZE < FrameLength then
    FrameLength / ETH_TX_BUF_SIZE + (if FrameLength % ETH_TX_BUF_SIZE ≠ 0 then 1 else 0)
  else 1

/-- The descriptor number `i` of a frame. -/
def setUp (FrameLength i : Nat) : TxDescriptor :=
  let n := bufcount FrameLength
  if n = 1 then ⟨true, true, true, FrameLength &&& ETH_DMATXDESC_TBS1⟩
  else
    { OWN := true
      FS := i = 0
      LS := i = n - 1
      ControlBufferSize :=
        if i = n - 1 then (FrameLength - (n - 1) * ETH_TX_BUF_SIZE) &&& ETH_DMATXDESC_TBS1
        else ETH_TX_BUF_SIZE &&& ETH_DMATXDESC_TBS1 }

namespace Tx

/-- `HAL_ETH_DMATxDescListInit`. -/
def boot (Tx_Buff : Nat → Buf UInt8 ETH_TX_BUF_SIZE) : Tx where
  TxDesc := 0
  DMATxDscrTab _ := ⟨false, false, false, 0⟩
  Tx_Buff := Tx_Buff
  TBUS := false
  dma := 0
  frame := []
  wire := []
  pc := .thread

/-- Whether a descriptor is the DMA's. -/
def own (s : Tx) (i : Nat) : Bool := (s.DMATxDscrTab i).OWN

/-- `memcpy` into the buffer of a descriptor. -/
def copy (s : Tx) (desc off : Nat) (xs : List UInt8) : Tx :=
  { s with Tx_Buff := Function.update s.Tx_Buff desc ((s.Tx_Buff desc).write off xs) }

/-- The descriptor number `i` of a frame is set up and given to the DMA, and `TxDesc` goes on. -/
def handOver (s : Tx) (FrameLength i : Nat) : Tx :=
  { s with
    DMATxDscrTab := Function.update s.DMATxDscrTab s.TxDesc (setUp FrameLength i)
    TxDesc := Ring.next ETH_TXBUFNB s.TxDesc }

/-- The next step of `low_level_output`; on the way back the transmit underflow is not tested, as
there is none while the DMA stores a frame before it sends it. -/
def driver (s : Tx) : Option Tx :=
  match s.pc with
  | .thread => none
  | .chain p [] _ _ framelength => some { s with pc := .transmit p framelength }
  | .chain p (payload :: q) desc off framelength =>
      if s.own desc then some { s with pc := .thread }
      else some { s with pc := .piece p payload q desc off framelength }
  | .piece p payload q desc off framelength =>
      if ETH_TX_BUF_SIZE < payload.length + off then
        some { s.copy desc off (payload.take (ETH_TX_BUF_SIZE - off)) with
          pc := .moved p (payload.drop (ETH_TX_BUF_SIZE - off)) q (Ring.next ETH_TXBUFNB desc)
            (framelength + (ETH_TX_BUF_SIZE - off)) }
      else
        some { s.copy desc off payload with
          pc := .chain p q desc (off + payload.length) (framelength + payload.length) }
  | .moved p payload q desc framelength =>
      if s.own desc then some { s with pc := .thread }
      else some { s with pc := .piece p payload q desc 0 framelength }
  | .transmit p framelength =>
      if framelength = 0 then some { s with pc := .thread }
      else if s.own s.TxDesc then some { s with pc := .thread }
      else some { s with pc := .hand p framelength 0 }
  | .hand p framelength i =>
      some { s.handOver framelength i with
        pc := if i + 1 = bufcount framelength then .poll p else .hand p framelength (i + 1) }
  | .poll _ => some { s with TBUS := false, pc := .thread }

end Tx

/-- What the DMA finds in a descriptor and its buffer. -/
structure Segment where
  first : Bool
  last : Bool
  bytes : List UInt8
  deriving DecidableEq, Repr

/-- What the DMA has read of a frame, and the frames it has sent, after one more descriptor. -/
def Segment.read (r : List UInt8 × List (List UInt8)) (g : Segment) :
    List UInt8 × List (List UInt8) :=
  let frame := (if g.first then [] else r.1) ++ g.bytes
  if g.last then ([], r.2 ++ [frame]) else (frame, r.2)

namespace Tx

def segment (s : Tx) (i : Nat) : Segment where
  first := (s.DMATxDscrTab i).FS
  last := (s.DMATxDscrTab i).LS
  bytes := (s.Tx_Buff i).slice 0 (s.DMATxDscrTab i).ControlBufferSize

/-- The DMA at its next descriptor. -/
def transmitDma (s : Tx) : Tx :=
  if s.own s.dma then
    let r := Segment.read (s.frame, s.wire) (s.segment s.dma)
    { s with
      DMATxDscrTab := Function.update s.DMATxDscrTab s.dma
        { s.DMATxDscrTab s.dma with OWN := false }
      dma := Ring.next ETH_TXBUFNB s.dma
      frame := r.1
      wire := r.2 }
  else { s with TBUS := true }

end Tx

/-- What can happen on the transmit side. -/
inductive TxEvent where
  | low_level_output (p : Chain)
  | driver
  | dma
  deriving DecidableEq, Repr

namespace Tx

/-- One step; a call can be made when there is none, and a suspended DMA does nothing. -/
def step (s : Tx) : TxEvent → Option Tx
  | .low_level_output p =>
      if s.pc = .thread then some { s with pc := .chain p p s.TxDesc 0 0 } else none
  | .driver => s.driver
  | .dma => if s.TBUS then none else some s.transmitDma

/-- The result of a call that ends in this step, with its chain. -/
def returned (s : Tx) : TxEvent → List (Chain × Err)
  | .driver =>
      match s.pc with
      | .chain p (_ :: _) desc _ _ => if s.own desc then [(p, .ERR_USE)] else []
      | .moved p _ _ desc _ => if s.own desc then [(p, .ERR_USE)] else []
      | .transmit p framelength =>
          if framelength = 0 ∨ s.own s.TxDesc = true then [(p, .ERR_OK)] else []
      | .poll p => [(p, .ERR_OK)]
      | _ => []
  | _ => []

end Tx

/-- The frames of the calls that returned `ERR_OK`, without those of no bytes. -/
def accepted (os : List (Chain × Err)) : List (List UInt8) :=
  os.filterMap fun r => if r.2 = .ERR_OK ∧ r.1.flatten ≠ [] then some r.1.flatten else none

/-! ## Frames and descriptors -/

theorem bufcount_pos (n : Nat) : 0 < bufcount n := by
  rw [bufcount, ETH_TX_BUF_SIZE]
  split
  · have := Nat.div_pos (show 1524 ≤ n by omega) (by decide)
    omega
  · exact Nat.one_pos

/-- The descriptors hold the frame. -/
theorem le_bufcount (n : Nat) : n ≤ bufcount n * ETH_TX_BUF_SIZE := by
  rw [bufcount, ETH_TX_BUF_SIZE]
  split
  · split <;> omega
  · omega

/-- One descriptor fewer does not. -/
theorem bufcount_lt {n : Nat} (hn : 0 < n) : (bufcount n - 1) * ETH_TX_BUF_SIZE < n := by
  rw [bufcount, ETH_TX_BUF_SIZE]
  split
  · split <;> omega
  · omega

/-- The segments of a frame. -/
def segments (f : List UInt8) : List Segment :=
  (List.range (bufcount f.length)).map fun i =>
    ⟨i = 0, i = bufcount f.length - 1, chunk ETH_TX_BUF_SIZE i f⟩

/-- The first segments of a frame, before the last one. -/
theorem foldl_read_take {f : List UInt8} {m : Nat} (hm : m < bufcount f.length)
    (r : List UInt8 × List (List UInt8)) :
    ((segments f).take m).foldl Segment.read r =
      (if m = 0 then r.1 else f.take (m * ETH_TX_BUF_SIZE), r.2) := by
  induction m with
  | zero => simp
  | succ m ih =>
      have hget : (segments f)[m]? =
          some ⟨m = 0, m = bufcount f.length - 1, chunk ETH_TX_BUF_SIZE m f⟩ := by
        rw [segments, List.getElem?_map, List.getElem?_range (by omega), Option.map_some]
      rw [List.take_add_one, hget, Option.toList_some, List.foldl_append, ih (by omega),
        List.foldl_cons, List.foldl_nil, Segment.read, if_neg (Nat.succ_ne_zero m)]
      have hlast : decide (m = bufcount f.length - 1) = false := decide_eq_false (by omega)
      simp only [hlast, Bool.false_eq_true, if_false, decide_eq_true_eq]
      by_cases hzero : m = 0
      · simp [hzero, chunk]
      · rw [if_neg hzero, if_neg hzero, chunk, Nat.succ_mul, List.take_add]

/-- **Reading all segments of a frame** sends the frame. -/
theorem foldl_read_segments (f : List UInt8) (r : List UInt8 × List (List UInt8)) :
    (segments f).foldl Segment.read r = ([], r.2 ++ [f]) := by
  have hpos := bufcount_pos f.length
  obtain ⟨n, hn⟩ := Nat.exists_eq_succ_of_ne_zero hpos.ne'
  have hget : (segments f)[n]? =
      some ⟨n = 0, n = bufcount f.length - 1, chunk ETH_TX_BUF_SIZE n f⟩ := by
    rw [segments, List.getElem?_map, List.getElem?_range (by omega), Option.map_some]
  have hall : segments f = (segments f).take (n + 1) :=
    (List.take_of_length_le (by simp [segments, hn])).symm
  rw [hall, List.take_add_one, hget, Option.toList_some, List.foldl_append,
    foldl_read_take (by omega), List.foldl_cons, List.foldl_nil, Segment.read]
  have hlast : decide (n = bufcount f.length - 1) = true := decide_eq_true (by omega)
  have hfull := le_bufcount f.length
  rw [hn, Nat.succ_mul] at hfull
  have hchunk : (if n = 0 then [] else f.take (n * ETH_TX_BUF_SIZE)) ++
      chunk ETH_TX_BUF_SIZE n f = f := by
    by_cases hzero : n = 0
    · rw [if_pos hzero, hzero, chunk, Nat.zero_mul, List.drop_zero, List.nil_append]
      exact List.take_of_length_le (by rw [hzero] at hfull; omega)
    · rw [if_neg hzero, chunk, ← List.take_add]
      exact List.take_of_length_le hfull
  rw [if_pos hlast]
  congr 2
  by_cases hzero : n = 0
  · simpa [hzero] using hchunk
  · simpa [hzero] using hchunk

/-- Reading the segments of several frames sends the frames. -/
theorem foldl_read_flatMap (fs : List (List UInt8)) (w : List (List UInt8)) :
    (fs.flatMap segments).foldl Segment.read ([], w) = ([], w ++ fs) := by
  induction fs generalizing w with
  | nil => simp
  | cons f fs ih =>
      rw [List.flatMap_cons, List.foldl_append, foldl_read_segments, ih, List.append_assoc,
        List.singleton_append]

/-- The wire only grows. -/
theorem prefix_foldl_read (gs : List Segment) (r : List UInt8 × List (List UInt8)) :
    r.2 <+: (gs.foldl Segment.read r).2 := by
  induction gs generalizing r with
  | nil => exact List.prefix_refl _
  | cons g gs ih =>
      refine List.IsPrefix.trans ?_ (ih _)
      rw [Segment.read]
      split
      · exact List.prefix_append _ _
      · exact List.prefix_refl _

end NetCamera.Eth
