import NetCamera.Lib.TwoWire

/-!
# NetCamera.Sccb

The bit-banged bus to the sensor, `sccb.c`.

Each assignment to a line, each switch of `SDA` and each delay is one moment of a
wave.  The master drives `SDA` from its output register; while it has switched the
pin to input, the slave drives it, and may change it only while the clock is low.
The routines rely on the levels the previous one left: `Holds` says which these are
and what a receiver has read so far, and each routine has one lemma from `Holds` to
`Holds`.  Over any sequence of calls a receiver reads exactly the transactions that
were asked for (`bus_carries`).
-/

namespace NetCamera

open TwoWire

/-! ## The lines -/

/-- The output register for both lines, the direction of `SDA`, and the wave so far, newest
levels first. -/
structure Bus where
  sda : Bool
  scl : Bool
  input : Bool
  now : Lines
  past : List Lines
  deriving Repr

/-- The level a slave drives after a wave. -/
abbrev Slave := Lines → List Lines → Bool

namespace Bus

/-- The level of a released `SDA`: the slave keeps it while the clock is high. -/
def line (slave : Slave) (b : Bus) : Bool :=
  if b.now.scl || b.scl then b.now.sda else slave b.now b.past

/-- The next moment. -/
def tick (slave : Slave) (b : Bus) : Bus where
  sda := b.sda
  scl := b.scl
  input := b.input
  now := if b.input then ⟨b.line slave, b.scl, .slave⟩ else ⟨b.sda, b.scl, .master⟩
  past := b.now :: b.past

/-- What a receiver has read so far. -/
def received (b : Bus) : Option Rx := receive b.now b.past

end Bus

section Routines

variable (slave : Slave)

def SCCB_SDA (v : Bool) (b : Bus) : Bus := Bus.tick slave { b with sda := v }

def SCCB_SCL (v : Bool) (b : Bus) : Bus := Bus.tick slave { b with scl := v }

def SCCB_SDA_IN (b : Bus) : Bus := Bus.tick slave { b with input := true }

def SCCB_SDA_OUT (b : Bus) : Bus := Bus.tick slave { b with input := false }

def SCCB_READ_SDA (b : Bus) : Bool := b.now.sda

/-- Time passes; only the slave can act. -/
def delay_us (_us : Nat) (b : Bus) : Bus := b.tick slave

/-- Both pins become outputs.  The reset leaves the output register at zero, and a
transaction leaves both lines high. -/
def SCCB_Init (level : Bool) : Bus where
  sda := level
  scl := level
  input := false
  now := ⟨level, level, .master⟩
  past := []

/-! ## The routines -/

def SCCB_Start (b : Bus) : Bus :=
  let b := SCCB_SDA slave true b
  let b := SCCB_SCL slave true b
  let b := delay_us slave 50 b
  let b := SCCB_SDA slave false b
  let b := delay_us slave 50 b
  SCCB_SCL slave false b

def SCCB_Stop (b : Bus) : Bus :=
  let b := SCCB_SDA slave false b
  let b := delay_us slave 50 b
  let b := SCCB_SCL slave true b
  let b := delay_us slave 50 b
  let b := SCCB_SDA slave true b
  delay_us slave 50 b

def SCCB_No_Ack (b : Bus) : Bus :=
  let b := delay_us slave 50 b
  let b := SCCB_SDA slave true b
  let b := SCCB_SCL slave true b
  let b := delay_us slave 50 b
  let b := SCCB_SCL slave false b
  let b := delay_us slave 50 b
  let b := SCCB_SDA slave false b
  delay_us slave 50 b

/-- One pass of the loop of `SCCB_WR_Byte`, over the bus and `dat`. -/
def writeBit (s : Bus × UInt8) : Bus × UInt8 :=
  let b := if s.2 &&& 0x80 != 0 then SCCB_SDA slave true s.1 else SCCB_SDA slave false s.1
  let b := delay_us slave 50 b
  let b := SCCB_SCL slave true b
  let b := delay_us slave 50 b
  (SCCB_SCL slave false b, s.2 <<< 1)

/-- The byte, and the acknowledgement as `res`. -/
def SCCB_WR_Byte (dat : UInt8) (b : Bus) : Bus × UInt8 :=
  let s := (List.range 8).foldl (fun s _ => writeBit slave s) (b, dat)
  let b := SCCB_SDA_IN slave s.1
  let b := delay_us slave 50 b
  let b := SCCB_SCL slave true b
  let b := delay_us slave 50 b
  let res := if SCCB_READ_SDA b then 1 else 0
  let b := SCCB_SCL slave false b
  (SCCB_SDA_OUT slave b, res)

/-- One pass of the loop of `SCCB_RD_Byte`, over the bus and `temp`. -/
def readBit (s : Bus × UInt8) : Bus × UInt8 :=
  let b := delay_us slave 50 s.1
  let b := SCCB_SCL slave true b
  let temp := s.2 <<< 1
  let temp := if SCCB_READ_SDA b then temp + 1 else temp
  let b := delay_us slave 50 b
  (SCCB_SCL slave false b, temp)

def SCCB_RD_Byte (b : Bus) : Bus × UInt8 :=
  let b := SCCB_SDA_IN slave b
  let s := (List.range 8).foldl (fun s _ => readBit slave s) (b, 0)
  (SCCB_SDA_OUT slave s.1, s.2)

/-- `res` starts uninitialised (`none`) and is set only where a byte is not acknowledged. -/
def SCCB_16bit_WR_Reg (reg : UInt8) (data : UInt16) (b : Bus) : Bus × Option UInt16 :=
  let b := SCCB_Start slave b
  let w := SCCB_WR_Byte slave 0x90 b
  let res : Option UInt16 := if w.2 != 0 then some 1 else none
  let b := delay_us slave 100 w.1
  let w := SCCB_WR_Byte slave reg b
  let res := if w.2 != 0 then some 1 else res
  let b := delay_us slave 100 w.1
  let tmp := (data >>> 8).toUInt8
  let w := SCCB_WR_Byte slave tmp b
  let res := if w.2 != 0 then some 1 else res
  let b := delay_us slave 100 w.1
  let tmp := (data &&& 0x00FF).toUInt8
  let w := SCCB_WR_Byte slave tmp b
  let res := if w.2 != 0 then some 1 else res
  (SCCB_Stop slave w.1, res)

def SCCB_16bit_RD_Reg (reg : UInt8) (b : Bus) : Bus × UInt16 :=
  let b := SCCB_Start slave b
  let b := (SCCB_WR_Byte slave 0x90 b).1
  let b := delay_us slave 100 b
  let b := (SCCB_WR_Byte slave reg b).1
  let b := delay_us slave 100 b
  let b := SCCB_Stop slave b
  let b := delay_us slave 100 b
  let b := SCCB_Start slave b
  let b := (SCCB_WR_Byte slave 0x91 b).1
  let b := delay_us slave 100 b
  let r := SCCB_RD_Byte slave b
  let val := (0 : UInt16) ||| r.2.toUInt16 <<< 8
  -- the first byte is acknowledged
  let b := delay_us slave 50 r.1
  let b := SCCB_SDA slave false b
  let b := SCCB_SCL slave true b
  let b := delay_us slave 50 b
  let b := SCCB_SCL slave false b
  let b := delay_us slave 50 b
  let b := SCCB_SDA slave false b
  let b := delay_us slave 50 b
  let r := SCCB_RD_Byte slave b
  let val := val ||| r.2.toUInt16
  let b := SCCB_No_Ack slave r.1
  (SCCB_Stop slave b, val)

def Page_16bit_WR_Reg (page reg : UInt8) (data : UInt16) (b : Bus) : Bus × UInt16 :=
  let b := (SCCB_16bit_WR_Reg slave 0xF0 page.toUInt16 b).1
  let b := (SCCB_16bit_WR_Reg slave reg data b).1
  (b, 0)

def Page_16bit_RD_Reg (page reg : UInt8) (b : Bus) : Bus × UInt16 :=
  let b := (SCCB_16bit_WR_Reg slave 0xF0 page.toUInt16 b).1
  SCCB_16bit_RD_Reg slave reg b

end Routines

/-- A call of the bus. -/
inductive BusCall where
  | write (page reg : UInt8) (data : UInt16)
  | read (page reg : UInt8)
  deriving DecidableEq, Repr

def BusCall.exec (slave : Slave) : BusCall → Bus → Bus × UInt16
  | .write page reg data, b => Page_16bit_WR_Reg slave page reg data b
  | .read page reg, b => Page_16bit_RD_Reg slave page reg b

/-- Calls one after the other, with what they return. -/
def runCalls (slave : Slave) : List BusCall → Bus → Bus × List UInt16
  | [], b => (b, [])
  | c :: cs, b =>
    let r := c.exec slave b
    let rest := runCalls slave cs r.1
    (rest.1, r.2 :: rest.2)

/-! ## What the routines leave -/

/-- The master drives both lines, at these levels, and a receiver stands at `rx`. -/
structure Holds (b : Bus) (sda scl : Bool) (rx : Rx) : Prop where
  latch : b.sda = sda
  clock : b.scl = scl
  output : b.input = false
  now : b.now = ⟨sda, scl, .master⟩
  received : b.received = some rx

/-- `SDA` is released, the register holds `sda` for it and the slave drives `line`. -/
structure Released (b : Bus) (sda scl line : Bool) (rx : Rx) : Prop where
  latch : b.sda = sda
  clock : b.scl = scl
  input : b.input = true
  now : b.now = ⟨line, scl, .slave⟩
  received : b.received = some rx

section Moments

variable (slave : Slave) {b : Bus} {sda scl line : Bool} {rx rx' : Rx}

/-- What a moment adds to a wave. -/
theorem received_tick {prev next : Lines} (hrx : b.received = some rx) (hprev : b.now = prev)
    (hnext : (b.tick slave).now = next) (hsee : rx.see prev next = some rx') :
    (b.tick slave).received = some rx' := by
  have htick : (b.tick slave).received =
    b.received.bind fun rx => rx.see b.now (b.tick slave).now := rfl
  rw [htick, hrx, hprev, hnext]
  exact hsee

namespace Holds

/-- A moment in which the master drives both lines. -/
theorem tick (h : Holds b sda scl rx) (sda' scl' : Bool)
    (hsee : rx.see ⟨sda, scl, .master⟩ ⟨sda', scl', .master⟩ = some rx') :
    Holds (Bus.tick slave { b with sda := sda', scl := scl' }) sda' scl' rx' := by
  have hnow : (Bus.tick slave { b with sda := sda', scl := scl' }).now =
      ⟨sda', scl', .master⟩ := if_neg (by simp [h.output])
  exact ⟨rfl, rfl, h.output, hnow, received_tick slave h.received h.now hnow hsee⟩

theorem setSda (h : Holds b sda scl rx) (v : Bool)
    (hsee : rx.see ⟨sda, scl, .master⟩ ⟨v, scl, .master⟩ = some rx') :
    Holds (SCCB_SDA slave v b) v scl rx' := by
  obtain rfl := h.clock
  exact h.tick slave v _ hsee

theorem setScl (h : Holds b sda scl rx) (v : Bool)
    (hsee : rx.see ⟨sda, scl, .master⟩ ⟨sda, v, .master⟩ = some rx') :
    Holds (SCCB_SCL slave v b) sda v rx' := by
  obtain rfl := h.latch
  exact h.tick slave _ v hsee

/-- Time does not change lines that the master drives. -/
theorem delay (h : Holds b sda scl rx) (us : Nat) : Holds (delay_us slave us b) sda scl rx := by
  obtain rfl := h.latch
  obtain rfl := h.clock
  exact h.tick slave _ _ (rx.see_same _)

/-- Under a low clock the master may set `SDA` to any level. -/
theorem setLow (h : Holds b sda false rx) (v : Bool) : Holds (SCCB_SDA slave v b) v false rx :=
  h.setSda slave v (rx.see_low _ _ _ _)

/-- The clock falls. -/
theorem fall (h : Holds b sda true rx) : Holds (SCCB_SCL slave false b) sda false rx :=
  h.setScl slave false (rx.see_fall _ _ _)

/-- The clock rises, and the receiver samples `SDA`. -/
theorem rise (h : Holds b sda false rx) (hstep : rx.step (.bit sda .master) = some rx') :
    Holds (SCCB_SCL slave true b) sda true rx' :=
  h.setScl slave true ((rx.see_rise _ _ _).trans hstep)

/-- The master releases `SDA`. -/
theorem release (h : Holds b sda false rx) :
    ∃ line, Released (SCCB_SDA_IN slave b) sda false line rx := by
  have hnow : (SCCB_SDA_IN slave b).now =
      ⟨Bus.line slave { b with input := true }, false, .slave⟩ := by
    rw [← h.clock]
    rfl
  exact ⟨_, h.latch, h.clock, rfl, hnow,
    received_tick slave h.received h.now hnow (rx.see_low _ _ _ _)⟩

end Holds

namespace Released

/-- A moment under a low clock: the slave may set `SDA` to any level. -/
theorem delayLow (h : Released b sda false line rx) (us : Nat) :
    ∃ line', Released (delay_us slave us b) sda false line' rx := by
  have hnow : (delay_us slave us b).now = ⟨b.line slave, false, .slave⟩ := by
    rw [← h.clock]
    exact if_pos h.input
  exact ⟨_, h.latch, h.clock, h.input, hnow,
    received_tick slave h.received h.now hnow (rx.see_low _ _ _ _)⟩

/-- A moment in which the clock is high, or rises or falls: `SDA` keeps its level. -/
theorem keep (h : Released b sda scl line rx) (scl' : Bool) (hhigh : (scl || scl') = true)
    (hsee : rx.see ⟨line, scl, .slave⟩ ⟨line, scl', .slave⟩ = some rx') :
    Released (SCCB_SCL slave scl' b) sda scl' line rx' := by
  have hline : Bus.line slave { b with scl := scl' } = line := by
    have hnow := congrArg Lines.scl h.now
    rw [Bus.line, if_pos]
    · exact congrArg Lines.sda h.now
    · show (b.now.scl || scl') = true
      rw [hnow]
      exact hhigh
  have hnow : (SCCB_SCL slave scl' b).now = ⟨line, scl', .slave⟩ := by
    rw [← hline]
    exact if_pos h.input
  exact ⟨h.latch, rfl, h.input, hnow, received_tick slave h.received h.now hnow hsee⟩

/-- The clock rises, and the receiver samples what the slave drives. -/
theorem rise (h : Released b sda false line rx) (hstep : rx.step (.bit line .slave) = some rx') :
    Released (SCCB_SCL slave true b) sda true line rx' :=
  h.keep slave true rfl ((rx.see_rise _ _ _).trans hstep)

theorem fall (h : Released b sda true line rx) :
    Released (SCCB_SCL slave false b) sda false line rx :=
  h.keep slave false rfl (rx.see_fall _ _ _)

theorem delayHigh (h : Released b sda true line rx) (us : Nat) :
    Released (delay_us slave us b) sda true line rx := by
  have hkeep : Released (delay_us slave us b) sda b.scl line rx :=
    h.keep slave b.scl rfl (by rw [h.clock]; exact rx.see_same _)
  rwa [h.clock] at hkeep

/-- The master takes `SDA` back. -/
theorem takeBack (h : Released b sda false line rx) :
    Holds (SCCB_SDA_OUT slave b) sda false rx := by
  have hnow : (SCCB_SDA_OUT slave b).now = ⟨sda, false, .master⟩ := by
    rw [← h.latch, ← h.clock]
    rfl
  exact ⟨h.latch, h.clock, rfl, hnow,
    received_tick slave h.received h.now hnow (rx.see_low _ _ _ _)⟩

theorem read (h : Released b sda scl line rx) : SCCB_READ_SDA b = line :=
  congrArg Lines.sda h.now

end Released

end Moments

/-! ## The routines on the bus -/

section Specs

variable (slave : Slave) {b : Bus} {sda line : Bool} {done : List Transaction}
  {octets : List Octet}

/-- Both lines are as `SCCB_Init` or a transaction leaves them. -/
def Resting (b : Bus) (done : List Transaction) : Prop := ∃ level, Holds b level level (.idle done)

theorem resting_init (level : Bool) : Resting (SCCB_Init level) [] :=
  ⟨level, rfl, rfl, rfl, rfl, rfl⟩

theorem start_holds (h : Resting b done) :
    Holds (SCCB_Start slave b) false false (.busy done [] []) := by
  obtain ⟨level, h⟩ := h
  -- to the idle levels: after the reset over a low clock, else they are there
  have hidle : Holds (SCCB_SCL slave true (SCCB_SDA slave true b)) true true (.idle done) := by
    cases level
    · exact (h.setLow slave true).rise slave rfl
    · exact (h.setSda slave true (Rx.see_same _ _)).setScl slave true (Rx.see_same _ _)
  have hstart := (hidle.delay slave 50).setSda slave false (Rx.see_start _ _ _)
  exact (hstart.delay slave 50).fall slave

theorem stop_resting (h : Holds b sda false (.busy done octets [])) :
    Resting (SCCB_Stop slave b) (done ++ [octets]) := by
  -- the rising clock samples a low level once more before the STOP
  have hrise := ((h.setLow slave false).delay slave 50).rise slave
    (show Rx.step _ _ = some (.busy done octets [(false, .master)]) from rfl)
  have hstop := (hrise.delay slave 50).setSda slave true (Rx.see_stop _ _ _)
  exact ⟨true, hstop.delay slave 50⟩

/-- A sample inside a byte. -/
theorem step_bit {bits : List (Bool × Driver)} (h : bits.length < 8) (v : Bool) (driver : Driver) :
    Rx.step (.busy done octets bits) (.bit v driver) =
      some (.busy done octets (bits ++ [(v, driver)])) :=
  if_neg (by omega)

/-- The ninth sample. -/
theorem step_ack {bits : List Bool} (h : bits.length = 8) (driver : Driver) (ack : Bool)
    (acker : Driver) :
    Rx.step (.busy done octets (bits.map fun v => (v, driver))) (.bit ack acker) =
      some (.busy done (octets ++ [⟨ofBits bits, driver, ack, acker⟩]) []) := by
  have hne : bits ≠ [] := List.ne_nil_of_length_pos (by omega)
  rw [Rx.step, if_pos (by rw [List.length_map, h]), octetOf_map hne]
  rfl

/-- One pass of the write loop puts the top bit on the bus. -/
theorem writeBit_holds {bits : List (Bool × Driver)}
    (h : Holds b sda false (.busy done octets bits)) (hlen : bits.length < 8) (dat : UInt8) :
    Holds (writeBit slave (b, dat)).1 (dat &&& 0x80 != 0) false
      (.busy done octets (bits ++ [(dat &&& 0x80 != 0, .master)])) := by
  have hset : Holds (if dat &&& 0x80 != 0 then SCCB_SDA slave true b else SCCB_SDA slave false b)
      (dat &&& 0x80 != 0) false (.busy done octets bits) := by
    cases hbit : (dat &&& 0x80 != 0)
    · exact h.setLow slave false
    · exact h.setLow slave true
  have hrise := (hset.delay slave 50).rise slave (step_bit hlen _ .master)
  exact (hrise.delay slave 50).fall slave

/-- The write loop puts the bits on the bus, most significant first. -/
theorem writeBits_holds (js : List Nat) {bits : List (Bool × Driver)}
    (h : Holds b sda false (.busy done octets bits)) (hlen : bits.length + js.length ≤ 8)
    (dat : UInt8) : ∃ sda', Holds (js.foldl (fun s _ => writeBit slave s) (b, dat)).1 sda' false
      (.busy done octets (bits ++ (topBits js.length dat).map fun v => (v, .master))) := by
  induction js generalizing b sda bits dat with
  | nil => exact ⟨sda, by simpa [topBits] using h⟩
  | cons j js ih =>
      rw [List.length_cons] at hlen
      have hbit := writeBit_holds slave h (by omega) dat
      obtain ⟨sda', hrest⟩ := ih hbit (by rw [List.length_append, List.length_singleton]; omega)
        (dat <<< 1)
      refine ⟨sda', ?_⟩
      rw [List.append_assoc] at hrest
      exact hrest

/-- A byte of the master, with the answer of the slave. -/
def octetSent (v : UInt8) (ack : Bool) : Octet := ⟨v, .master, ack, .slave⟩

/-- A byte of the slave, with the answer of the master. -/
def octetRead (v : UInt8) (ack : Bool) : Octet := ⟨v, .slave, ack, .master⟩

/-- A byte goes out, and the slave answers. -/
theorem writeByte_holds (h : Holds b sda false (.busy done octets [])) (dat : UInt8) :
    ∃ sda' ack, Holds (SCCB_WR_Byte slave dat b).1 sda' false
      (.busy done (octets ++ [octetSent dat ack]) []) := by
  obtain ⟨sda', hbits⟩ := writeBits_holds slave (List.range 8) h (by simp) dat
  obtain ⟨line, hin⟩ := hbits.release slave
  obtain ⟨ack, hwait⟩ := hin.delayLow slave 50
  have hrise := hwait.rise slave (step_ack (length_topBits 8 dat) .master ack .slave)
  rw [ofBits_topBits] at hrise
  exact ⟨sda', ack, ((hrise.delayHigh slave 50).fall slave).takeBack slave⟩

/-- One pass of the read loop takes a bit from the slave. -/
theorem readBit_released {bits : List Bool}
    (h : Released b sda false line (.busy done octets (bits.map fun v => (v, .slave))))
    (hlen : bits.length < 8) : ∃ v,
      Released (readBit slave (b, ofBits bits)).1 sda false v
        (.busy done octets ((bits ++ [v]).map fun v => (v, .slave))) ∧
      (readBit slave (b, ofBits bits)).2 = ofBits (bits ++ [v]) := by
  obtain ⟨v, hwait⟩ := h.delayLow slave 50
  have hrise := hwait.rise slave (step_bit (by rwa [List.length_map]) v .slave)
  refine ⟨v, ?_, ?_⟩
  · rw [List.map_append]
    exact (hrise.delayHigh slave 50).fall slave
  · rw [ofBits_append]
    simp only [readBit, hrise.read]

/-- The read loop takes its byte from the bits of the slave. -/
theorem readBits_released (js : List Nat) {bits : List Bool}
    (h : Released b sda false line (.busy done octets (bits.map fun v => (v, .slave))))
    (hlen : bits.length + js.length ≤ 8) : ∃ line' bits',
      Released (js.foldl (fun s _ => readBit slave s) (b, ofBits bits)).1 sda false line'
        (.busy done octets (bits'.map fun v => (v, .slave))) ∧
      bits'.length = bits.length + js.length ∧
      (js.foldl (fun s _ => readBit slave s) (b, ofBits bits)).2 = ofBits bits' := by
  induction js generalizing b line bits with
  | nil => exact ⟨line, bits, h, rfl, rfl⟩
  | cons j js ih =>
      rw [List.length_cons] at hlen
      obtain ⟨v, hbit, htemp⟩ := readBit_released slave h (by omega)
      obtain ⟨line', bits', hrest, hlen', htemp'⟩ := ih hbit
        (by rw [List.length_append, List.length_singleton]; omega)
      rw [← htemp] at hrest htemp'
      refine ⟨line', bits', hrest, ?_, htemp'⟩
      rw [hlen', List.length_append, List.length_singleton, List.length_cons]
      omega

/-- A byte comes in; its acknowledgement is still to be sent. -/
theorem readByte_holds (h : Holds b sda false (.busy done octets [])) : ∃ bits : List Bool,
    Holds (SCCB_RD_Byte slave b).1 sda false
      (.busy done octets (bits.map fun v => (v, .slave))) ∧
    bits.length = 8 ∧ (SCCB_RD_Byte slave b).2 = ofBits bits := by
  obtain ⟨line, hin⟩ := h.release slave
  have hnone : Released (SCCB_SDA_IN slave b) sda false line
      (.busy done octets (([] : List Bool).map fun v => (v, .slave))) := hin
  obtain ⟨line', bits, hrest, hlen, htemp⟩ :=
    readBits_released slave (List.range 8) hnone (by simp)
  exact ⟨bits, hrest.takeBack slave, hlen, htemp⟩

/-- The master sends the ninth sample and takes `SDA` low again. -/
theorem sendAck_holds {bits : List Bool}
    (h : Holds b sda false (.busy done octets (bits.map fun v => (v, .slave))))
    (hlen : bits.length = 8) (ack : Bool) :
    Holds (delay_us slave 50 (SCCB_SDA slave false (delay_us slave 50 (SCCB_SCL slave false
        (delay_us slave 50 (SCCB_SCL slave true (SCCB_SDA slave ack (delay_us slave 50 b))))))))
      false false (.busy done (octets ++ [octetRead (ofBits bits) ack]) []) := by
  have hrise := ((h.delay slave 50).setLow slave ack).rise slave
    (step_ack hlen .slave ack .master)
  have hfall := (hrise.delay slave 50).fall slave
  exact ((hfall.delay slave 50).setLow slave false).delay slave 50

/-! ## The registers -/

/-- A transaction of bytes of the master, whatever the slave answers. -/
def Sends (bytes : List UInt8) (t : Transaction) : Prop :=
  ∃ acks : List Bool, acks.length = bytes.length ∧ t = List.zipWith octetSent bytes acks

/-- A transaction that reads two bytes: the first is acknowledged, the second is not. -/
def Reads (v v' : UInt8) (t : Transaction) : Prop :=
  ∃ ack, t = [octetSent 0x91 ack, octetRead v false, octetRead v' true]

theorem write16_resting (h : Resting b done) (reg : UInt8) (data : UInt16) :
    ∃ t, Sends [0x90, reg, (data >>> 8).toUInt8, (data &&& 0x00FF).toUInt8] t ∧
      Resting (SCCB_16bit_WR_Reg slave reg data b).1 (done ++ [t]) := by
  obtain ⟨_, a₁, h₁⟩ := writeByte_holds slave (start_holds slave h) 0x90
  obtain ⟨_, a₂, h₂⟩ := writeByte_holds slave (h₁.delay slave 100) reg
  obtain ⟨_, a₃, h₃⟩ := writeByte_holds slave (h₂.delay slave 100) (data >>> 8).toUInt8
  obtain ⟨_, a₄, h₄⟩ := writeByte_holds slave (h₃.delay slave 100) (data &&& 0x00FF).toUInt8
  exact ⟨_, ⟨[a₁, a₂, a₃, a₄], rfl, rfl⟩, stop_resting slave h₄⟩

theorem read16_resting (h : Resting b done) (reg : UInt8) :
    ∃ t t' v v', Sends [0x90, reg] t ∧ Reads v v' t' ∧
      Resting (SCCB_16bit_RD_Reg slave reg b).1 (done ++ [t] ++ [t']) ∧
      (SCCB_16bit_RD_Reg slave reg b).2 = v.toUInt16 <<< 8 ||| v'.toUInt16 := by
  obtain ⟨_, a₁, h₁⟩ := writeByte_holds slave (start_holds slave h) 0x90
  obtain ⟨_, a₂, h₂⟩ := writeByte_holds slave (h₁.delay slave 100) reg
  obtain ⟨level, hrest⟩ := stop_resting slave (h₂.delay slave 100)
  have hagain := start_holds slave ⟨level, hrest.delay slave 100⟩
  obtain ⟨_, a₃, h₃⟩ := writeByte_holds slave hagain 0x91
  obtain ⟨bits, hread, hlen, hval⟩ := readByte_holds slave (h₃.delay slave 100)
  have hack := sendAck_holds slave hread hlen false
  obtain ⟨bits', hread', hlen', hval'⟩ := readByte_holds slave hack
  have hnack := sendAck_holds slave hread' hlen' true
  refine ⟨_, _, ofBits bits, ofBits bits', ⟨[a₁, a₂], rfl, rfl⟩, ⟨a₃, rfl⟩,
    stop_resting slave hnack, ?_⟩
  rw [← hval, ← hval']
  exact congrArg (· ||| _) UInt16.zero_or

end Specs

/-! ## Calls -/

theorem hi_eq (data : UInt16) : (data >>> 8).toUInt8 = UInt8.ofNat (data.toNat / 256) := by
  apply UInt8.toNat_inj.mp
  rw [UInt16.toNat_toUInt8, UInt16.toNat_shiftRight, UInt8.toNat_ofNat', Nat.shiftRight_eq_div_pow]
  rfl

theorem lo_eq (data : UInt16) : (data &&& 0x00FF).toUInt8 = UInt8.ofNat data.toNat := by
  apply UInt8.toNat_inj.mp
  have hmask : (data &&& 0x00FF).toNat = data.toNat % 256 := by
    rw [UInt16.toNat_and]
    exact Nat.and_two_pow_sub_one_eq_mod data.toNat 8
  rw [UInt16.toNat_toUInt8, hmask, UInt8.toNat_ofNat', Nat.mod_mod]

/-- The first byte is the high one. -/
theorem toNat_join (v v' : UInt8) :
    (v.toUInt16 <<< 8 ||| v'.toUInt16).toNat = 256 * v.toNat + v'.toNat := by
  have hv := v.toNat_lt
  have hv' := v'.toNat_lt
  have hshift : (v.toUInt16 <<< 8).toNat = v.toNat <<< 8 := by
    rw [UInt16.toNat_shiftLeft, UInt8.toNat_toUInt16, Nat.shiftLeft_eq, Nat.shiftLeft_eq]
    show v.toNat * 256 % 65536 = v.toNat * 256
    omega
  rw [UInt16.toNat_or, hshift, UInt8.toNat_toUInt16, ← Nat.shiftLeft_add_eq_or_of_lt hv',
    Nat.shiftLeft_eq]
  omega

/-- What a call puts on the bus: the page, and then the register with its value; or the
register, and then its value from the slave, which the call returns. -/
def BusCall.Carries : BusCall → UInt16 → List Transaction → Prop
  | .write page reg data, ret, ts => ∃ t t', ts = [t, t'] ∧
    Sends [0x90, 0xF0, 0x00, page] t ∧
    Sends [0x90, reg, UInt8.ofNat (data.toNat / 256), UInt8.ofNat data.toNat] t' ∧ ret = 0
  | .read page reg, ret, ts => ∃ t t' t'' v v', ts = [t, t', t''] ∧
    Sends [0x90, 0xF0, 0x00, page] t ∧ Sends [0x90, reg] t' ∧ Reads v v' t'' ∧
    ret.toNat = 256 * v.toNat + v'.toNat

/-- Calls with what they return, and the transactions of each. -/
def AllCarry : List BusCall → List UInt16 → List (List Transaction) → Prop
  | [], [], [] => True
  | c :: cs, ret :: rets, ts :: tss => c.Carries ret ts ∧ AllCarry cs rets tss
  | _, _, _ => False

section Runs

variable (slave : Slave) {b : Bus} {done : List Transaction}

theorem page_resting (h : Resting b done) (page : UInt8) :
    ∃ t, Sends [0x90, 0xF0, 0x00, page] t ∧
      Resting (SCCB_16bit_WR_Reg slave 0xF0 page.toUInt16 b).1 (done ++ [t]) := by
  obtain ⟨t, ht, hrest⟩ := write16_resting slave h 0xF0 page.toUInt16
  have hhi : UInt8.ofNat (page.toNat / 256) = 0x00 := by
    rw [Nat.div_eq_of_lt page.toNat_lt]
    rfl
  rw [hi_eq, lo_eq, UInt8.toNat_toUInt16, hhi, UInt8.ofNat_toNat] at ht
  exact ⟨t, ht, hrest⟩

theorem exec_resting (h : Resting b done) (c : BusCall) :
    ∃ ts, c.Carries (c.exec slave b).2 ts ∧ Resting (c.exec slave b).1 (done ++ ts) := by
  cases c with
  | write page reg data =>
      obtain ⟨t, ht, hpage⟩ := page_resting slave h page
      obtain ⟨t', ht', hrest⟩ := write16_resting slave hpage reg data
      rw [hi_eq, lo_eq] at ht'
      rw [List.append_assoc] at hrest
      exact ⟨[t, t'], ⟨t, t', rfl, ht, ht', rfl⟩, hrest⟩
  | read page reg =>
      obtain ⟨t, ht, hpage⟩ := page_resting slave h page
      obtain ⟨t', t'', v, v', ht', ht'', hrest, hret⟩ := read16_resting slave hpage reg
      rw [List.append_assoc, List.append_assoc] at hrest
      refine ⟨[t, t', t''], ⟨t, t', t'', v, v', rfl, ht, ht', ht'', ?_⟩, hrest⟩
      rw [← toNat_join, ← hret]
      rfl

theorem runCalls_resting (h : Resting b done) (cs : List BusCall) :
    ∃ tss, AllCarry cs (runCalls slave cs b).2 tss ∧
      Resting (runCalls slave cs b).1 (done ++ tss.flatten) := by
  induction cs generalizing b done with
  | nil => exact ⟨[], trivial, by rwa [List.flatten_nil, List.append_nil]⟩
  | cons c cs ih =>
      obtain ⟨ts, hts, hrest⟩ := exec_resting slave h c
      obtain ⟨tss, htss, hend⟩ := ih hrest
      rw [List.append_assoc] at hend
      exact ⟨ts :: tss, ⟨hts, htss⟩, hend⟩

end Runs

/-- **The bus carries what the caller asked**, for every slave and every sequence of calls: a
receiver reads exactly the transactions of the calls, and `SDA` changes under a high clock
only at their STARTs and STOPs. -/
theorem bus_carries (slave : Slave) (level : Bool) (cs : List BusCall) :
    ∃ tss, AllCarry cs (runCalls slave cs (SCCB_Init level)).2 tss ∧
      (runCalls slave cs (SCCB_Init level)).1.received = some (.idle tss.flatten) ∧
      highChanges (runCalls slave cs (SCCB_Init level)).1.now
        (runCalls slave cs (SCCB_Init level)).1.past = 2 * tss.flatten.length := by
  obtain ⟨tss, htss, _, hrest⟩ := runCalls_resting slave (resting_init level) cs
  rw [List.nil_append] at hrest
  exact ⟨tss, htss, hrest.received, highChanges_eq hrest.received⟩

end NetCamera
