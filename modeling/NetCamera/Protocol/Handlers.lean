import NetCamera.Protocol.Scan

/-!
# NetCamera.Protocol.Handlers

The handlers `Pro_set*` of the set commands.

Every handler scans the parameter into its local `iRtnData`, hands some of the
integers to the caller's `RtnValue` and may write to the sensor or to the LED's
timer.  They are one definition, `proSet`, applied to what each of them hands
over (`firstValue`, `countValues`) and writes.

`Para` is not terminated, and `RtnValue` and `iRtnData` are not initialised:
the contents of these locals, and of the memory behind `Para`, are an input of
the model (`Stack`).
-/

namespace NetCamera

/-! ## Locals and hardware writes -/

/-- The uninitialised locals: `Para`, the stack memory above it, `RtnValue`, and
`iRtnData` of the handler that is called. -/
structure Stack where
  Para : Buf UInt8 20
  above : List UInt8
  RtnValue : Buf Int 20
  iRtnData : Buf Int 8
  deriving DecidableEq, Repr

/-- The memory from `Para` on. -/
def Stack.mem (stk : Stack) : List UInt8 := stk.Para.elems ++ stk.above

/-- A write to the hardware: a sensor register by page, or the compare value of
the LED's PWM channel. -/
inductive RegWrite where
  | Page_16bit_WR_Reg (page reg : UInt8) (data : UInt16)
  | TIM_SetTIM3Compare4 (compare : UInt32)
  deriving DecidableEq, Repr

/-- Element `i` of an `int` array. -/
def intAt {n : Nat} (b : Buf Int n) (i : Nat) : Int := b.elems.getD i 0

/-- An `int` result, wrapped to 32 bits. -/
def i32 (v : Int) : Int := v.bmod (2 ^ 32)

/-- What a handler leaves: its return value, the caller's array and its hardware
writes. -/
structure SetResult where
  RtnLen : UInt8
  RtnValue : Buf Int 20
  writes : List RegWrite
  deriving DecidableEq, Repr

/-! ## The handlers -/

/-- A handler: scan the parameter, hand `values` of the count and the scanned
integers to the caller, make the hardware writes `effect`. -/
def proSet (values : UInt8 → Buf Int 8 → List Int) (effect : Buf Int 8 → List RegWrite)
    (stk : Stack) : Option SetResult :=
  (Scan_Params stk.mem stk.iRtnData 8).map fun r =>
    { RtnLen := r.1, RtnValue := stk.RtnValue.write 0 (values r.1 r.2), writes := effect r.2 }

/-- `*pArray = iRtnData[0]`. -/
def firstValue (_ : UInt8) (iRtnData : Buf Int 8) : List Int := [intAt iRtnData 0]

/-- `iRtnData[0]` to `iRtnData[iRtnCount - 1]`, one by one. -/
def countValues (iRtnCount : UInt8) (iRtnData : Buf Int 8) : List Int :=
  iRtnData.elems.take iRtnCount.toNat

/-- A handler that touches no hardware. -/
def noWrites (_ : Buf Int 8) : List RegWrite := []

def Pro_setmod : Stack → Option SetResult := proSet firstValue noWrites

def Pro_setcap : Stack → Option SetResult := proSet firstValue noWrites

def Pro_setipa : Stack → Option SetResult := proSet countValues noWrites

def Pro_setpot : Stack → Option SetResult := proSet firstValue noWrites

/-- The size `Pro_setsiz` makes of a requested one: clamped to 1024x768, then the
longer side shortened to 4:3.  The products with `0.75` and `4.0/3.0` are taken
exactly and truncated toward zero. -/
def fitSize (w h : Int) : Int × Int :=
  let w := if w > 1024 then 1024 else w
  let h := if h > 768 then 768 else h
  if 4 * h ≥ 3 * w then (w, (3 * w).tdiv 4) else ((4 * h).tdiv 3, h)

/-- `Pro_setsiz` replaces the first two integers before it hands them over. -/
def Pro_setsiz : Stack → Option SetResult :=
  proSet (fun iRtnCount iRtnData =>
    let size := fitSize (intAt iRtnData 0) (intAt iRtnData 1)
    countValues iRtnCount (iRtnData.write 0 [size.1, size.2])) noWrites

def Pro_setrat : Stack → Option SetResult := proSet firstValue noWrites

/-- The LED's compare value for a brightness. -/
def ledLight (v : Int) : UInt32 :=
  let l := i32 (v * 5)
  let l := if l = 500 then 499 else l
  UInt32.ofInt (if l < 6 then 0 else l)

def Pro_setbrt : Stack → Option SetResult :=
  proSet firstValue fun iRtnData => [.TIM_SetTIM3Compare4 (ledLight (intAt iRtnData 0))]

/-- The contrast mode value, `((v/25)<<4)+3`. -/
def contrastLevel (v : Int) : UInt16 := UInt16.ofInt (16 * v.tdiv 25 + 3)

def Pro_setcon : Stack → Option SetResult :=
  proSet firstValue fun iRtnData =>
    [.Page_16bit_WR_Reg 0x01 0xC6 0xA743,
     .Page_16bit_WR_Reg 0x01 0xC8 (contrastLevel (intAt iRtnData 0)),
     .Page_16bit_WR_Reg 0x01 0xC6 0xA744,
     .Page_16bit_WR_Reg 0x01 0xC8 (contrastLevel (intAt iRtnData 0))]

/-- 99 switches automatic exposure on, 1 switches it off, anything else sets the
integration time. -/
def Pro_setexp : Stack → Option SetResult :=
  proSet firstValue fun iRtnData =>
    if intAt iRtnData 0 = 99 then
      [.Page_16bit_WR_Reg 0x01 0xC6 0xa102, .Page_16bit_WR_Reg 0x01 0xC8 0x0f]
    else if intAt iRtnData 0 = 1 then
      [.Page_16bit_WR_Reg 0x01 0xC6 0xa102, .Page_16bit_WR_Reg 0x01 0xC8 0x00]
    else [.Page_16bit_WR_Reg 0x00 0x09 (UInt16.ofInt (i32 (intAt iRtnData 0 * 13)))]

def Pro_setpol : Stack → Option SetResult := proSet firstValue noWrites

/-! ## Slots of an array -/

/-- A slot that a write reaches. -/
theorem intAt_write_lt {n : Nat} (b : Buf Int n) {vs : List Int} {i : Nat} (h : i < vs.length)
    (hn : vs.length ≤ n) : intAt (b.write 0 vs) i = vs.getD i 0 := by
  rw [intAt, Buf.elems_write _ (by omega), List.take_zero, List.nil_append,
    List.getD_eq_getElem?_getD, List.getD_eq_getElem?_getD, List.getElem?_append_left h]

/-- A slot behind the written ones. -/
theorem intAt_write_of_le {n : Nat} (b : Buf Int n) {vs : List Int} {i : Nat}
    (h : vs.length ≤ i) (hn : vs.length ≤ n) : intAt (b.write 0 vs) i = intAt b i := by
  rw [intAt, intAt, Buf.elems_write _ (by omega), List.take_zero, List.nil_append, Nat.zero_add,
    List.getD_eq_getElem?_getD, List.getD_eq_getElem?_getD, List.getElem?_append_right h,
    List.getElem?_drop]
  congr 2
  omega

/-! ## What a handler depends on -/

/-- The text a handler scans. -/
def Stack.text (stk : Stack) : List UInt8 := CString.cstr stk.mem 0

/-- A handler sees of `Para` and the memory above it only the text. -/
theorem proSet_eq (values : UInt8 → Buf Int 8 → List Int)
    (effect : Buf Int 8 → List RegWrite) (stk : Stack) :
    proSet values effect stk = (scanText stk.text stk.iRtnData 8).map fun r =>
      { RtnLen := r.1, RtnValue := stk.RtnValue.write 0 (values r.1 r.2),
        writes := effect r.2 } := by
  rw [proSet, Scan_Params_eq, Stack.text]

end NetCamera
