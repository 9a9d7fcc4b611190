/-!
# TwoWire

The receiver of a two-wire bus.

A line `sda` carries the bits and a line `scl` the clock.  A receiver samples `sda`
when `scl` rises and takes START and STOP from `sda` falling and rising while `scl`
is high; nine samples are a byte with its acknowledgement.  `receive` reads a wave,
newest levels first, and is strict: it fails on lines that change together, on a
STOP inside a byte, on a START inside a transaction and on a STOP outside of one.
So what it reads accounts for every change of `sda` under a high clock
(`highChanges_eq`).
-/

namespace TwoWire

/-! ## Waves -/

/-- Who drives `sda`. -/
inductive Driver where
  | master
  | slave
  deriving DecidableEq, Repr

/-- The levels of the lines at one moment, and who drives `sda`. -/
structure Lines where
  sda : Bool
  scl : Bool
  driver : Driver
  deriving DecidableEq, Repr

/-- What a receiver takes from one moment to the next. -/
inductive Symbol where
  | start
  | stop
  | bit (b : Bool) (driver : Driver)
  deriving DecidableEq, Repr

/-- The lines do not change together. -/
def Single (prev now : Lines) : Prop := prev.scl = now.scl ∨ prev.sda = now.sda

instance (prev now : Lines) : Decidable (Single prev now) :=
  inferInstanceAs (Decidable (_ ∨ _))

/-- A sample on the rising clock, START and STOP under a high clock. -/
def edge (prev now : Lines) : Option Symbol :=
  if now.scl then
    if prev.scl then
      match prev.sda, now.sda with
      | true, false => some .start
      | false, true => some .stop
      | _, _ => none
    else some (.bit now.sda now.driver)
  else none

/-! ## Bytes -/

/-- The byte of bits that come most significant first. -/
def ofBits (bits : List Bool) : UInt8 := UInt8.ofNat (bits.foldl (fun n b => 2 * n + b.toNat) 0)

/-- The `n` most significant bits of a byte. -/
def topBits : Nat → UInt8 → List Bool
  | 0, _ => []
  | n + 1, v => (v &&& 0x80 != 0) :: topBits n (v <<< 1)

theorem length_topBits (n : Nat) (v : UInt8) : (topBits n v).length = n := by
  induction n generalizing v with
  | zero => rfl
  | succ n ih => rw [topBits, List.length_cons, ih]

theorem ofBits_topBits (v : UInt8) : ofBits (topBits 8 v) = v := by
  have hall : ∀ n : Fin 256, ofBits (topBits 8 (UInt8.ofNat n)) = UInt8.ofNat n := by
    decide +kernel
  simpa using hall ⟨v.toNat, v.toNat_lt⟩

/-- A further bit shifts the byte. -/
theorem ofBits_append (bits : List Bool) (b : Bool) :
    ofBits (bits ++ [b]) = if b then (ofBits bits <<< 1) + 1 else ofBits bits <<< 1 := by
  have hshift : ∀ n : Nat, UInt8.ofNat n <<< 1 = UInt8.ofNat (2 * n) := by
    intro n
    apply UInt8.toNat_inj.mp
    rw [UInt8.toNat_shiftLeft, UInt8.toNat_ofNat', UInt8.toNat_ofNat', Nat.shiftLeft_eq]
    show n % 256 * 2 % 256 = 2 * n % 256
    omega
  rw [ofBits, List.foldl_append, ofBits, hshift]
  cases b
  · rfl
  · exact UInt8.ofNat_add _ _

/-- A byte on the bus: its value and who drove it, the level of the acknowledgement (low
acknowledges) and who drove that. -/
structure Octet where
  value : UInt8
  driver : Driver
  ack : Bool
  acker : Driver
  deriving DecidableEq, Repr

/-- The byte of eight samples of one driver. -/
def octetOf : List (Bool × Driver) → Bool → Driver → Option Octet
  | [], _, _ => none
  | bits@((_, driver) :: _), ack, acker =>
    if bits.all (fun b => b.2 = driver) then
      some ⟨ofBits (bits.map Prod.fst), driver, ack, acker⟩
    else none

theorem octetOf_map {bits : List Bool} (h : bits ≠ []) (driver : Driver) (ack : Bool)
    (acker : Driver) : octetOf (bits.map fun b => (b, driver)) ack acker =
      some ⟨ofBits bits, driver, ack, acker⟩ := by
  cases bits with
  | nil => exact absurd rfl h
  | cons b bits => simp [octetOf, Function.comp_def]

/-! ## The receiver -/

/-- A transaction: the bytes between START and STOP. -/
abbrev Transaction := List Octet

/-- Where a receiver stands: between two transactions, or inside one with the samples of the
byte that has begun. -/
inductive Rx where
  | idle (done : List Transaction)
  | busy (done : List Transaction) (octets : List Octet) (bits : List (Bool × Driver))
  deriving DecidableEq, Repr

namespace Rx

/-- One symbol.  The clock rises once more before a STOP, with `sda` low. -/
def step : Rx → Symbol → Option Rx
  | .idle done, .start => some (.busy done [] [])
  | .idle done, .bit _ _ => some (.idle done)
  | .idle _, .stop => none
  | .busy done octets bits, .bit b driver =>
    if bits.length = 8 then
      (octetOf bits b driver).map fun octet => .busy done (octets ++ [octet]) []
    else some (.busy done octets (bits ++ [(b, driver)]))
  | .busy done octets bits, .stop =>
    if bits = [(false, .master)] then some (.idle (done ++ [octets])) else none
  | .busy _ _ _, .start => none

/-- From one moment to the next. -/
def see (rx : Rx) (prev now : Lines) : Option Rx :=
  if Single prev now then
    match edge prev now with
    | none => some rx
    | some s => rx.step s
  else none

/-- The changes of `sda` under a high clock that a receiver accounts for. -/
def marks : Rx → Nat
  | .idle done => 2 * done.length
  | .busy done _ _ => 2 * done.length + 1

end Rx

/-! ### What each moment is -/

section Moments

variable (rx : Rx) (sda : Bool) (driver driver' : Driver)

namespace Rx

/-- Under a low clock `sda` may change. -/
theorem see_low (sda' : Bool) : rx.see ⟨sda, false, driver⟩ ⟨sda', false, driver'⟩ = some rx := by
  simp [see, Single, edge]

theorem see_rise :
    rx.see ⟨sda, false, driver⟩ ⟨sda, true, driver'⟩ = rx.step (.bit sda driver') := by
  simp [see, Single, edge]

/-- Where no line changes there is nothing to see. -/
theorem see_same (now : Lines) : rx.see now now = some rx := by
  obtain ⟨sda, scl, driver⟩ := now
  cases sda <;> cases scl <;> simp [see, Single, edge]

theorem see_fall : rx.see ⟨sda, true, driver⟩ ⟨sda, false, driver'⟩ = some rx := by
  simp [see, Single, edge]

theorem see_start : rx.see ⟨true, true, driver⟩ ⟨false, true, driver'⟩ = rx.step .start := by
  simp [see, Single, edge]

theorem see_stop : rx.see ⟨false, true, driver⟩ ⟨true, true, driver'⟩ = rx.step .stop := by
  simp [see, Single, edge]

end Rx

end Moments

/-! ### Whole waves -/

/-- Read a wave: the levels now, and the past ones, newest first. -/
def receive : Lines → List Lines → Option Rx
  | _, [] => some (.idle [])
  | now, prev :: past => (receive prev past).bind fun rx => rx.see prev now

/-- The number of times `sda` changes under a high clock, edges of the clock included. -/
def highChanges : Lines → List Lines → Nat
  | _, [] => 0
  | now, prev :: past =>
    highChanges prev past + if (prev.scl || now.scl) && (prev.sda != now.sda) then 1 else 0

/-- START and STOP are marks, a sample is none. -/
def Symbol.mark : Symbol → Nat
  | .bit _ _ => 0
  | _ => 1

namespace Rx

theorem marks_step {rx rx' : Rx} {s : Symbol} (h : rx.step s = some rx') :
    rx'.marks = rx.marks + s.mark := by
  cases rx with
  | idle done =>
      cases s with
      | start => cases h; rfl
      | stop => cases h
      | bit b driver => cases h; rfl
  | busy done octets bits =>
      cases s with
      | start => cases h
      | stop =>
          rw [step] at h
          split at h
          · cases h
            simp only [marks, Symbol.mark, List.length_append, List.length_singleton]
            omega
          · cases h
      | bit b driver =>
          rw [step] at h
          split at h
          · obtain ⟨octet, -, rfl⟩ := Option.map_eq_some_iff.mp h
            rfl
          · cases h
            rfl

/-- An edge of lines that do not change together is a mark where `sda` changes under a high
clock. -/
theorem mark_edge {prev now : Lines} (h : Single prev now) :
    ((edge prev now).map Symbol.mark).getD 0 =
      if (prev.scl || now.scl) && (prev.sda != now.sda) then 1 else 0 := by
  obtain ⟨sda, scl, driver⟩ := prev
  obtain ⟨sda', scl', driver'⟩ := now
  cases sda <;> cases scl <;> cases sda' <;> cases scl' <;> first | rfl | simp [Single] at h

/-- The marks of a receiver after one moment. -/
theorem marks_see {rx rx' : Rx} {prev now : Lines} (h : rx.see prev now = some rx') :
    rx'.marks = rx.marks + if (prev.scl || now.scl) && (prev.sda != now.sda) then 1 else 0 := by
  rw [see] at h
  split at h
  · next hsingle =>
      rw [← mark_edge hsingle]
      cases hedge : edge prev now with
      | none =>
          rw [hedge] at h
          cases h
          rfl
      | some s =>
          rw [hedge] at h
          exact marks_step h
  · cases h

end Rx

/-- **Every change of `sda` under a high clock is the START or the STOP of a transaction.** -/
theorem highChanges_eq {now : Lines} {past : List Lines} {rx : Rx}
    (h : receive now past = some rx) : highChanges now past = rx.marks := by
  induction past generalizing now rx with
  | nil =>
      cases h
      rfl
  | cons prev past ih =>
      rw [receive] at h
      obtain ⟨rx₀, h₀, hsee⟩ := Option.bind_eq_some_iff.mp h
      rw [highChanges, ih h₀, Rx.marks_see hsee]

end TwoWire
