import NetCamera.Protocol.Ack

/-!
# NetCamera.Protocol.Bounds

`PollMessage` with a record of the array elements it touches.

`pollTouch` is `PollMessage` again, with the `u8` offset `iCount` the source adds up,
returning beside the result which elements of its arrays it reads and writes, itself
or through a string function, `GetCmd` or `GetParaLen`; `pollTouch_snd` says that the
result is that of `PollMessage`.

`GetCmd` terminates its argument at `str[7]`, and the argument is `Cmd[7]`.  So
every buffer that gets to it is a write out of bounds, whatever the command
(`poll_in_bounds_iff`).  With a short text in `ValidCmd`, that byte and the reads of
`atoi` in the unterminated `Para` are all that may leave an array
(`poll_touches`).
-/

namespace NetCamera

open CString

/-! ## Touches -/

/-- The arrays of `PollMessage`. -/
inductive Arr where
  | Start
  | Lenth
  | Width
  | Height
  | Head
  | Cmd
  | Para
  | End
  | RtnValue
  | ValidCmd
  | recbuf
  deriving DecidableEq, Repr

/-- The number of elements, as declared. -/
def Arr.size : Arr → Nat
  | .Start => 8
  | .Lenth => 4
  | .Width => 2
  | .Height => 2
  | .Head => 2
  | .Cmd => 7
  | .Para => 20
  | .End => 2
  | .RtnValue => 20
  | .ValidCmd => 100
  | .recbuf => 2000

/-- The `n` elements from index `first` on are read or written. -/
structure Touch where
  arr : Arr
  first : Nat
  n : Nat
  deriving DecidableEq, Repr

/-- They are elements of the array. -/
def Touch.InBounds (t : Touch) : Prop := t.first + t.n ≤ t.arr.size

instance (t : Touch) : Decidable t.InBounds := inferInstanceAs (Decidable (_ ≤ _))

section touched

variable {β : Type}

/-- Touches in front of those of the rest. -/
def touched (ts : List Touch) (r : List Touch × β) : List Touch × β := (ts ++ r.1, r.2)

@[simp] theorem touched_fst (ts : List Touch) (r : List Touch × β) :
    (touched ts r).1 = ts ++ r.1 := rfl

@[simp] theorem touched_snd (ts : List Touch) (r : List Touch × β) :
    (touched ts r).2 = r.2 := rfl

end touched

/-! ## What the string functions read -/

/-- The number of bytes of its first argument `strcmp` reads: up to a difference or the
terminator. -/
def cmpSpan : List UInt8 → List UInt8 → Nat
  | a :: s, b :: t => if a = b ∧ a ≠ 0 then cmpSpan s t + 1 else 1
  | _, _ => 1

/-- The number of bytes `atoi` reads: white space, a sign, digits, and the byte behind. -/
def atoiSpan (mem : List UInt8) : Nat :=
  let rest := mem.dropWhile isspace
  let sign := match rest with
    | b :: _ => if b = chr '-' ∨ b = chr '+' then 1 else 0
    | [] => 0
  (mem.takeWhile isspace).length + sign + ((rest.drop sign).takeWhile isdigit).length + 1

/-- `strlen` and its terminator. -/
def strSpan (mem : List UInt8) (pos : Nat) : Nat := strlen mem pos + 1

/-! ## The functions with their touches -/

/-- The comparisons of `GetCmd`, in order. -/
def tryCmds (str : List UInt8) : List Cmd → List Touch × Option Cmd
  | [] => ([], none)
  | c :: cs =>
    touched [⟨.Cmd, 0, cmpSpan (str ++ [0]) (c.text ++ [0])⟩] <|
    if strcmp (str ++ [0]) c.text then ([], some c) else tryCmds str cs

/-- `GetCmd` of `Cmd`; it stores to `str[7]` first. -/
def getCmdTouch (str : List UInt8) : List Touch × Option Cmd :=
  touched [⟨.Cmd, 7, 1⟩] (tryCmds str Cmd.all)

/-- The reads of the loop of `GetParaLen`, on the receive buffer from `off` on. -/
def paraLenTouches (para : List UInt8) (off : Nat) : Nat → Nat → List Touch
  | 0, _ => []
  | n + 1, i => ⟨.recbuf, off + i, 1⟩ ::
      if para.getD i 0 ≠ 0 then paraLenTouches para off n (i + 1) else []

/-- The number of elements of `RtnValue` a set command stores from. -/
def Cmd.stored : Cmd → Nat
  | .setipa => 4
  | .setsiz => 2
  | _ => 1

/-- The switch: the values of a handler that returned, or the text that is printed. -/
def switchTouches (c : Cmd) (stk : Stack) (s : Cam) : List Touch :=
  match setCases c with
  | some (handler, _) => if (handler stk).isSome then [⟨.RtnValue, 0, c.stored⟩] else []
  | none =>
    match getCases s.SaveParaList c with
    | some txt => [⟨.ValidCmd, 25, txt.length + 1⟩]
    | none => []

/-- The fixed fields of the acknowledgement, and the command that is echoed. -/
def headTouches : List Touch :=
  [⟨.ValidCmd, 0, 8⟩, ⟨.ValidCmd, 12, 4⟩, ⟨.ValidCmd, 16, 2⟩, ⟨.ValidCmd, 18, 7⟩]

/-- `strchr` behind the value, and the end mark behind its terminator. -/
def valueTouches (s : Cam) : List Touch :=
  let ParaLen := UInt8.ofNat ((strchr s.ValidCmd.elems 25 0).getD 0)
  [⟨.ValidCmd, 25, strSpan s.ValidCmd.elems 25⟩, ⟨.End, 0, 2⟩, ⟨.ValidCmd, ParaLen.toNat + 1, 2⟩]

/-- The rest of the acknowledgement, with its length field. -/
def bodyTouches (c : Cmd) (s : Cam) : List Touch :=
  (if c.isSet then [⟨.ValidCmd, 25, 2⟩, ⟨.End, 0, 2⟩, ⟨.ValidCmd, 27, 2⟩]
  else if c.val > 0x0f && c.val < 0x18 then valueTouches s
  else ⟨.ValidCmd, 25, helpText.length + 1⟩ :: valueTouches (s.print helpText)) ++
    [⟨.ValidCmd, 8, 4⟩]

/-- `runCmd` with its touches; at the end the acknowledgement is printed. -/
def runTouch (c : Cmd) (Cmd End : List UInt8) (stk : Stack) (s : Cam) :
    List Touch × (Outcome × Cam) :=
  touched (switchTouches c stk s) <|
  match switchCmd c stk s with
  | none => ([], (.fault, s))
  | some (RtnLen, s) =>
    let s := { s with ValidCmd := ackHead Cmd s.ValidCmd }
    touched (headTouches ++ bodyTouches c s) <|
    let s := ackBody c RtnLen End s
    ([⟨.ValidCmd, 0, s.ParaLen.toNat + 3⟩], (if c.resets then .reset else .returned, s))

/-- `memcpy` of a field from `recbuf+iCount`. -/
def fieldTouches (arr : Arr) (iCount : UInt8) (n : Nat) : List Touch :=
  [⟨arr, 0, n⟩, ⟨.recbuf, iCount.toNat, n⟩]

/-- From the test of `CmdVal` on. -/
def paraTouch (c : Cmd) (recbuf : RecvBuf) (Cmd : List UInt8) (iCount : UInt8) (stk : Stack)
    (s : Cam) : List Touch × (Outcome × Cam) :=
  let para := recbuf.elems.drop iCount.toNat
  let ParaLen := GetParaLen para
  let s := { s with ParaLen := ParaLen }
  touched (paraLenTouches para iCount.toNat 21 0) <|
  if ParaLen = 0xff then ([], (.returned, s))
  else if ParaLen = 0 then ([], (.returned, s))
  else
    let stk := { stk with
      Para := stk.Para.write 0 (recbuf.slice iCount.toNat ParaLen.toNat) }
    touched (fieldTouches .Para iCount ParaLen.toNat ++ [⟨.Para, 0, atoiSpan stk.mem⟩]) <|
    let iCount := iCount + ParaLen + 1
    let End := recbuf.slice iCount.toNat 2
    touched (fieldTouches .End iCount 2) <|
    if End = endText then runTouch c Cmd End stk s else ([], (.returned, s))

/-- From the `memcpy` of the command on. -/
def cmdTouch (recbuf : RecvBuf) (iCount : UInt8) (stk : Stack) (s : Cam) :
    List Touch × (Outcome × Cam) :=
  touched (fieldTouches .Cmd iCount 7) <|
  let Cmd := recbuf.slice iCount.toNat 7
  let iCount := iCount + 7
  touched (getCmdTouch Cmd).1 <|
  match (getCmdTouch Cmd).2 with
  | some c => paraTouch c recbuf Cmd iCount stk s
  | none => ([], (.returned, s))

/-- `PollMessage` with its touches. -/
def pollTouch (recbuf : RecvBuf) (stk : Stack) (s : Cam) : List Touch × (Outcome × Cam) :=
  let iCount : UInt8 := 0
  let Start := recbuf.slice 0 8
  touched (fieldTouches .Start iCount 8 ++ [⟨.Start, 0, cmpSpan Start startText⟩]) <|
  if strcmp Start startText then
    let iCount := iCount + 8
    touched (⟨.Start, 0, strSpan Start 0⟩ :: fieldTouches .Lenth iCount 4) <|
    let iCount := iCount + 4
    touched (fieldTouches .Width iCount 2) <|
    let Width := byteSum recbuf iCount.toNat
    let iCount := iCount + 2
    touched (fieldTouches .Height iCount 2) <|
    let Height := byteSum recbuf iCount.toNat
    let iCount := iCount + 2
    if Width + Height = 0 then
      touched (fieldTouches .Head iCount 2) <|
      let Head := recbuf.slice iCount.toNat 2
      if Head = headText then
        cmdTouch recbuf (iCount + 2) stk s
      else ([], (.returned, s))
    else ([], (.returned, s))
  else ([], (.returned, s))

/-! ### They compute the same -/

theorem getCmdTouch_snd (str : List UInt8) : (getCmdTouch str).2 = GetCmd str := by
  rw [getCmdTouch, touched_snd, GetCmd]
  induction Cmd.all with
  | nil => rfl
  | cons c cs ih =>
      rw [tryCmds, touched_snd, List.find?_cons]
      cases strcmp (str ++ [0]) c.text with
      | true => rfl
      | false => exact ih

theorem runTouch_snd (c : Cmd) (Cmd End : List UInt8) (stk : Stack) (s : Cam) :
    (runTouch c Cmd End stk s).2 = runCmd c Cmd End stk s := by
  rw [runTouch, touched_snd, runCmd]
  cases switchCmd c stk s with
  | none => rfl
  | some r => rfl

/-- A parameter length that is not the mark is at most 20. -/
theorem toNat_GetParaLen_le {recbuf : RecvBuf} (h : GetParaLen (recbuf.elems.drop 25) ≠ 0xff) :
    (GetParaLen (recbuf.elems.drop 25)).toNat ≤ 20 := by
  rw [GetParaLen_eq] at h ⊢
  split at h
  · next hle =>
      rw [if_pos hle, UInt8.toNat_ofNat']
      omega
  · exact absurd rfl h

/-- The `u8` offset of the end mark does not wrap. -/
theorem toNat_end {ParaLen : UInt8} (h : ParaLen.toNat ≤ 20) :
    ((25 : UInt8) + ParaLen + 1).toNat = 25 + ParaLen.toNat + 1 := by
  have h25 : (25 : UInt8).toNat = 25 := rfl
  have h1 : (1 : UInt8).toNat = 1 := rfl
  rw [UInt8.toNat_add, UInt8.toNat_add, h25, h1]
  omega

theorem paraTouch_snd (c : Cmd) (recbuf : RecvBuf) (Cmd : List UInt8) (stk : Stack) (s : Cam) :
    (paraTouch c recbuf Cmd 25 stk s).2 =
      let ParaLen := GetParaLen (recbuf.elems.drop 25)
      let s := { s with ParaLen := ParaLen }
      if ParaLen = 0xff then (.returned, s)
      else if ParaLen = 0 then (.returned, s)
      else
        let stk := { stk with Para := stk.Para.write 0 (recbuf.slice 25 ParaLen.toNat) }
        let End := recbuf.slice (25 + ParaLen.toNat + 1) 2
        if End = endText then runCmd c Cmd End stk s else (.returned, s) := by
  have h25 : (25 : UInt8).toNat = 25 := rfl
  simp only [paraTouch, touched_snd, h25]
  split
  · rfl
  · next hlen =>
      split
      · rfl
      · rw [touched_snd, touched_snd, toNat_end (toNat_GetParaLen_le hlen)]
        split
        · exact runTouch_snd c Cmd _ _ _
        · rfl

/-- The checks with their offsets worked out. -/
theorem pollTouch_eq (recbuf : RecvBuf) (stk : Stack) (s : Cam) : pollTouch recbuf stk s =
    touched (fieldTouches .Start 0 8 ++ [⟨.Start, 0, cmpSpan (recbuf.slice 0 8) startText⟩])
      (if strcmp (recbuf.slice 0 8) startText then
        touched (⟨.Start, 0, strSpan (recbuf.slice 0 8) 0⟩ :: fieldTouches .Lenth 8 4)
          (touched (fieldTouches .Width 12 2) (touched (fieldTouches .Height 14 2)
            (if byteSum recbuf 12 + byteSum recbuf 14 = 0 then
              touched (fieldTouches .Head 16 2)
                (if recbuf.slice 16 2 = headText then cmdTouch recbuf 18 stk s
                else ([], (.returned, s)))
            else ([], (.returned, s)))))
      else ([], (.returned, s))) := rfl

theorem cmdTouch_snd (recbuf : RecvBuf) (stk : Stack) (s : Cam) :
    (cmdTouch recbuf 18 stk s).2 = (GetCmd (recbuf.slice 18 7)).elim (.returned, s)
      fun c => (paraTouch c recbuf (recbuf.slice 18 7) 25 stk s).2 := by
  rw [← getCmdTouch_snd]
  show Prod.snd (match (getCmdTouch (recbuf.slice 18 7)).2 with
    | some c => paraTouch c recbuf (recbuf.slice 18 7) 25 stk s
    | none => ([], (.returned, s))) = _
  cases (getCmdTouch (recbuf.slice 18 7)).2 with
  | none => rfl
  | some c => rfl

/-- **The record does not change the result.** -/
theorem pollTouch_snd (recbuf : RecvBuf) (stk : Stack) (s : Cam) :
    (pollTouch recbuf stk s).2 = PollMessage recbuf stk s := by
  rw [pollTouch_eq, PollMessage, touched_snd]
  simp only [apply_ite Prod.snd, touched_snd, cmdTouch_snd]
  cases GetCmd (recbuf.slice 18 7) with
  | none => simp only [Option.elim_none]
  | some c => simp only [Option.elim_some, paraTouch_snd]

/-! ## In bounds -/

theorem cmpSpan_le (s : List UInt8) {t : List UInt8} (ht : 0 ∉ t) :
    cmpSpan s (t ++ [0]) ≤ t.length + 1 := by
  induction t generalizing s with
  | nil =>
      cases s with
      | nil => exact Nat.le_refl 1
      | cons a s =>
          rw [List.nil_append, cmpSpan]
          split
          · next h => exact absurd h.1 h.2
          · exact Nat.le_refl 1
  | cons b t ih =>
      rw [List.mem_cons, not_or] at ht
      cases s with
      | nil => exact Nat.le_add_left 1 _
      | cons a s =>
          have hrec := ih s ht.2
          rw [List.cons_append, cmpSpan, List.length_cons]
          split <;> omega

theorem fieldTouches_inBounds {arr : Arr} {iCount : UInt8} {n : Nat} (harr : n ≤ arr.size)
    (hoff : iCount.toNat + n ≤ 2000) : ∀ t ∈ fieldTouches arr iCount n, t.InBounds := by
  intro t ht
  simp only [fieldTouches, List.mem_cons, List.not_mem_nil, or_false] at ht
  rcases ht with rfl | rfl
  · rw [Touch.InBounds, Nat.zero_add]
    exact harr
  · exact hoff

theorem paraLenTouches_inBounds (para : List UInt8) {off n i : Nat} (h : off + i + n ≤ 2000) :
    ∀ t ∈ paraLenTouches para off n i, t.InBounds := by
  induction n generalizing i with
  | zero => exact List.forall_mem_nil _
  | succ n ih =>
      rw [paraLenTouches, List.forall_mem_cons]
      refine ⟨?_, ?_⟩
      · show off + i + 1 ≤ 2000
        omega
      · split
        · exact ih (by omega)
        · exact List.forall_mem_nil _

/-! ### The acknowledgement -/

/-- The index of the terminator behind a short text. -/
theorem toNat_ackValue {s : Cam} (h : s.text.length ≤ 55) :
    (UInt8.ofNat ((strchr s.ValidCmd.elems 25 0).getD 0)).toNat = 25 + s.text.length := by
  have hptr : (strchr s.ValidCmd.elems 25 0).getD 0 = 25 + s.text.length := by
    rw [strchr_zero, Option.getD_some]
    rfl
  rw [hptr, UInt8.toNat_ofNat']
  omega

theorem valueTouches_inBounds {s : Cam} (h : s.text.length ≤ 55) :
    ∀ t ∈ valueTouches s, t.InBounds := by
  have hspan : strSpan s.ValidCmd.elems 25 = s.text.length + 1 := rfl
  simp only [valueTouches, List.forall_mem_cons, List.not_mem_nil, false_imp_iff, implies_true,
    and_true, Touch.InBounds, Arr.size, toNat_ackValue h, hspan]
  omega

theorem text_help (s : Cam) : (s.print helpText).text.length ≤ 55 := by
  have hhelp : helpText.length ≤ 55 := by decide
  rw [text_print s (by decide) hhelp]
  exact hhelp

theorem bodyTouches_inBounds (c : Cmd) {s : Cam} (h : s.text.length ≤ 55) :
    ∀ t ∈ bodyTouches c s, t.InBounds := by
  rw [bodyTouches, List.forall_mem_append]
  refine ⟨?_, by decide⟩
  split
  · decide
  · split
    · exact valueTouches_inBounds h
    · exact List.forall_mem_cons.mpr ⟨by decide, valueTouches_inBounds (text_help s)⟩

@[simp] theorem ParaLen_ackLength (AckLen : UInt8) (s : Cam) :
    (ackLength AckLen s).ParaLen = s.ParaLen := rfl

/-- The end of an acknowledgement lies in `ValidCmd`. -/
theorem toNat_ackBody_le (c : Cmd) (RtnLen : UInt8) (End : List UInt8) {s : Cam}
    (h : s.text.length ≤ 55) : (ackBody c RtnLen End s).ParaLen.toNat ≤ 80 := by
  have hvalue : ∀ {s : Cam}, s.text.length ≤ 55 → (ackValue End s).ParaLen.toNat ≤ 80 := by
    intro s h
    have hnat : (ackValue End s).ParaLen.toNat = 25 + s.text.length := toNat_ackValue h
    omega
  unfold ackBody
  split
  · exact (by decide : (26 : UInt8).toNat ≤ 80)
  · split
    · simp only [ParaLen_ackLength]
      exact hvalue h
    · simp only [ParaLen_ackLength]
      exact hvalue (text_help s)

/-- The switch leaves a short text. -/
theorem text_switchCmd {c : Cmd} {stk : Stack} {s s' : Cam} {RtnLen : UInt8}
    (h : s.text.length ≤ 55) (hswitch : switchCmd c stk s = some (RtnLen, s')) :
    s'.text.length ≤ 55 := by
  unfold switchCmd at hswitch
  split at hswitch
  · obtain ⟨r, -, heq⟩ := Option.map_eq_some_iff.mp hswitch
    obtain ⟨-, rfl⟩ := Prod.mk.inj heq
    exact h
  · split at hswitch
    · next txt htxt =>
        obtain ⟨-, rfl⟩ := Prod.mk.inj (Option.some.inj hswitch)
        rw [text_print s (zero_not_mem_getCases htxt) (length_getCases_le htxt)]
        exact length_getCases_le htxt
    · obtain ⟨-, rfl⟩ := Prod.mk.inj (Option.some.inj hswitch)
      exact h

theorem switchTouches_inBounds (c : Cmd) (stk : Stack) (s : Cam) :
    ∀ t ∈ switchTouches c stk s, t.InBounds := by
  have hstored : c.stored ≤ 20 := by cases c <;> decide
  unfold switchTouches
  split
  · split
    · refine List.forall_mem_singleton.mpr ?_
      show 0 + c.stored ≤ 20
      omega
    · exact List.forall_mem_nil _
  · split
    · next txt htxt =>
        have hlen := length_getCases_le htxt
        refine List.forall_mem_singleton.mpr ?_
        show 25 + (txt.length + 1) ≤ 100
        omega
    · exact List.forall_mem_nil _

theorem runTouch_inBounds (c : Cmd) {Cmd : List UInt8} (hCmd : Cmd.length = 7) (End : List UInt8)
    (stk : Stack) {s : Cam} (h : s.text.length ≤ 55) :
    ∀ t ∈ (runTouch c Cmd End stk s).1, t.InBounds := by
  rw [runTouch, touched_fst, List.forall_mem_append]
  refine ⟨switchTouches_inBounds c stk s, ?_⟩
  cases hswitch : switchCmd c stk s with
  | none => exact List.forall_mem_nil _
  | some r =>
      obtain ⟨RtnLen, s'⟩ := r
      have htext : ({ s' with ValidCmd := ackHead Cmd s'.ValidCmd } : Cam).text.length ≤ 55 := by
        have hsame := text_ackHead hCmd s'
        have hle := text_switchCmd h hswitch
        rw [← hsame] at hle
        exact hle
      have hle := toNat_ackBody_le c RtnLen End htext
      simp only [touched_fst, List.forall_mem_append]
      refine ⟨⟨by decide, bodyTouches_inBounds c htext⟩, List.forall_mem_singleton.mpr ?_⟩
      show 0 + (_ + 3) ≤ 100
      omega

/-! ### The command -/

/-- What may leave an array: the eighth byte of `Cmd`, and `atoi` behind `Para`. -/
def Excused (t : Touch) : Prop :=
  t.InBounds ∨ t.arr = .Cmd ∧ t.first + t.n = 8 ∨ ∃ mem, t = ⟨.Para, 0, atoiSpan mem⟩

theorem tryCmds_excused (str : List UInt8) (cs : List Cmd) :
    ∀ t ∈ (tryCmds str cs).1, Excused t := by
  induction cs with
  | nil => exact List.forall_mem_nil _
  | cons c cs ih =>
      have hspan := cmpSpan_le (str ++ [0]) (Cmd.zero_not_mem_text c)
      rw [Cmd.length_text] at hspan
      rw [tryCmds, touched_fst, List.singleton_append, List.forall_mem_cons]
      constructor
      · by_cases height : cmpSpan (str ++ [0]) (c.text ++ [0]) = 8
        · exact Or.inr (Or.inl ⟨rfl, (Nat.zero_add _).trans height⟩)
        · refine Or.inl ?_
          show 0 + cmpSpan (str ++ [0]) (c.text ++ [0]) ≤ 7
          omega
      · split
        · exact List.forall_mem_nil _
        · exact ih

theorem paraTouch_excused (c : Cmd) (recbuf : RecvBuf) {Cmd : List UInt8} (hCmd : Cmd.length = 7)
    (stk : Stack) {s : Cam} (h : s.text.length ≤ 55) :
    ∀ t ∈ (paraTouch c recbuf Cmd 25 stk s).1, Excused t := by
  have h25 : (25 : UInt8).toNat = 25 := rfl
  have hin : ∀ {ts : List Touch}, (∀ t ∈ ts, t.InBounds) → ∀ t ∈ ts, Excused t :=
    fun hts t ht => Or.inl (hts t ht)
  simp only [paraTouch, touched_fst, h25, List.forall_mem_append]
  refine ⟨hin (paraLenTouches_inBounds _ (by omega)), ?_⟩
  split
  · exact List.forall_mem_nil _
  · next hlen =>
      have hle := toNat_GetParaLen_le hlen
      split
      · exact List.forall_mem_nil _
      · rw [touched_fst, touched_fst, List.forall_mem_append, List.forall_mem_append,
          List.forall_mem_append]
        refine ⟨⟨hin (fieldTouches_inBounds hle (by omega)), ?_⟩, ?_, ?_⟩
        · exact List.forall_mem_singleton.mpr (Or.inr (Or.inr ⟨_, rfl⟩))
        · refine hin (fieldTouches_inBounds (Nat.le_refl 2) ?_)
          rw [toNat_end hle]
          omega
        · split
          · exact hin (runTouch_inBounds c hCmd _ _ h)
          · exact List.forall_mem_nil _

theorem cmdTouch_excused (recbuf : RecvBuf) (stk : Stack) {s : Cam} (h : s.text.length ≤ 55) :
    ∀ t ∈ (cmdTouch recbuf 18 stk s).1, Excused t := by
  have hCmd : (recbuf.slice 18 7).length = 7 := recbuf.length_slice (by decide)
  have hcmd : (cmdTouch recbuf 18 stk s).1 = fieldTouches .Cmd 18 7 ++
      ((getCmdTouch (recbuf.slice 18 7)).1 ++
        (match (getCmdTouch (recbuf.slice 18 7)).2 with
        | some c => paraTouch c recbuf (recbuf.slice 18 7) 25 stk s
        | none => ([], (.returned, s))).1) := rfl
  rw [hcmd, List.forall_mem_append, List.forall_mem_append]
  refine ⟨fun t ht => Or.inl (fieldTouches_inBounds (Nat.le_refl 7) (by decide) t ht), ?_, ?_⟩
  · rw [getCmdTouch, touched_fst, List.singleton_append, List.forall_mem_cons]
    exact ⟨Or.inr (Or.inl ⟨rfl, rfl⟩), tryCmds_excused _ _⟩
  · cases (getCmdTouch (recbuf.slice 18 7)).2 with
    | none => exact List.forall_mem_nil _
    | some c => exact paraTouch_excused c recbuf hCmd stk h

/-! ## When all touches are in bounds -/

/-- The buffer gets to `GetCmd`: the right start, zero width and height, the right head. -/
def ReachesGetCmd (recbuf : RecvBuf) : Prop :=
  recbuf.slice 0 8 = startText ∧ recbuf.slice 12 4 = [0, 0, 0, 0] ∧ recbuf.slice 16 2 = headText

/-- The checks up to `GetCmd` stay in bounds. -/
theorem forall_pollTouch_iff {P : Touch → Prop} (hP : ∀ t : Touch, t.InBounds → P t)
    (recbuf : RecvBuf) (stk : Stack) (s : Cam) : (∀ t ∈ (pollTouch recbuf stk s).1, P t) ↔
      (ReachesGetCmd recbuf → ∀ t ∈ (cmdTouch recbuf 18 stk s).1, P t) := by
  have hin : ∀ {ts : List Touch}, (∀ t ∈ ts, t.InBounds) → ∀ t ∈ ts, P t :=
    fun hts t ht => hP t (hts t ht)
  have hstart : ∀ t ∈ fieldTouches .Start 0 8 ++
      [⟨.Start, 0, cmpSpan (recbuf.slice 0 8) startText⟩], P t := by
    refine hin (List.forall_mem_append.mpr ⟨by decide, List.forall_mem_singleton.mpr ?_⟩)
    have hspan := cmpSpan_le (recbuf.slice 0 8)
      (show 0 ∉ ascii ['C', 'O', 'R', 'E', 'N', 'C', 'E'] by decide)
    rw [Touch.InBounds, Nat.zero_add]
    exact hspan
  rw [pollTouch_eq, touched_fst, List.forall_mem_append, and_iff_right hstart]
  by_cases h0 : recbuf.slice 0 8 = startText
  swap
  · rw [if_neg (mt (strcmp_start recbuf).mp h0)]
    exact iff_of_true (List.forall_mem_nil _) fun hreach => absurd hreach.1 h0
  have hsize : ∀ t ∈ (⟨.Start, 0, strSpan (recbuf.slice 0 8) 0⟩ : Touch) ::
      fieldTouches .Lenth 8 4, P t := by
    rw [h0]
    exact hin (by decide)
  rw [if_pos ((strcmp_start recbuf).mpr h0), touched_fst, touched_fst, touched_fst,
    List.forall_mem_append, List.forall_mem_append, List.forall_mem_append, and_iff_right hsize,
    and_iff_right (hin (by decide)), and_iff_right (hin (by decide))]
  by_cases h12 : recbuf.slice 12 4 = [0, 0, 0, 0]
  swap
  · rw [if_neg (mt (byteSum_eq_zero_iff recbuf).mp h12)]
    exact iff_of_true (List.forall_mem_nil _) fun hreach => absurd hreach.2.1 h12
  rw [if_pos ((byteSum_eq_zero_iff recbuf).mpr h12), touched_fst, List.forall_mem_append,
    and_iff_right (hin (by decide))]
  by_cases h16 : recbuf.slice 16 2 = headText
  · rw [if_pos h16]
    exact ⟨fun h _ => h, fun h => h ⟨h0, h12, h16⟩⟩
  · rw [if_neg h16]
    exact iff_of_true (List.forall_mem_nil _) fun hreach => absurd hreach.2.2 h16

/-- **All that may leave an array.** -/
theorem poll_touches (recbuf : RecvBuf) (stk : Stack) {s : Cam} (h : s.text.length ≤ 55) :
    ∀ t ∈ (pollTouch recbuf stk s).1, Excused t :=
  (forall_pollTouch_iff (fun _ => Or.inl) recbuf stk s).mpr
    fun _ => cmdTouch_excused recbuf stk h

/-- `GetCmd` stores behind `Cmd`. -/
theorem cmdTouch_overrun (recbuf : RecvBuf) (stk : Stack) (s : Cam) :
    ¬ ∀ t ∈ (cmdTouch recbuf 18 stk s).1, t.InBounds := by
  intro h
  have hmem : (⟨.Cmd, 7, 1⟩ : Touch) ∈ (cmdTouch recbuf 18 stk s).1 := by
    refine List.mem_append_right _ (List.mem_append_left _ ?_)
    exact List.mem_cons_self
  exact absurd (h _ hmem) (by decide)

/-- **`PollMessage` stays inside its arrays exactly when the buffer does not get to
`GetCmd`.** -/
theorem poll_in_bounds_iff (recbuf : RecvBuf) (stk : Stack) (s : Cam) :
    (∀ t ∈ (pollTouch recbuf stk s).1, t.InBounds) ↔ ¬ ReachesGetCmd recbuf := by
  rw [forall_pollTouch_iff (fun _ h => h)]
  constructor
  · intro h hreach
    exact cmdTouch_overrun recbuf stk s (h hreach)
  · exact fun h hreach => absurd hreach h

/-- A received command, `getrat:1`. -/
def getratBuf : RecvBuf := (Buf.fill TCP_SERVER_RX_BUFSIZE 0).write 0
  (startText ++ [0, 0, 0, 0] ++ [0, 0, 0, 0] ++ headText ++ Cmd.getrat.text ++ [0x31, 0] ++ endText)

/-- An ordinary command overruns `Cmd`. -/
theorem poll_overruns_Cmd : ¬ ∀ t ∈ (pollTouch getratBuf
    ⟨Buf.fill 20 0, [], Buf.fill 20 0, Buf.fill 8 0⟩
    ⟨⟨DefaultList, ⟨0, 0, 0⟩⟩, 0, Buf.fill 100 0, fun _ => NorFlash.blank, []⟩).1, t.InBounds := by
  intro h
  have hreach : ReachesGetCmd getratBuf :=
    ⟨by decide +kernel, by decide +kernel, by decide +kernel⟩
  exact cmdTouch_overrun getratBuf _ _ ((forall_pollTouch_iff (fun _ h => h) ..).mp h hreach)

end NetCamera
