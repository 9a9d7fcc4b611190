import NetCamera.Protocol.Poll

/-!
# NetCamera.Protocol.Frame

The command grammar, and that `PollMessage` implements it.

A `Frame` is a command with its parameter; `Frame.bytes` is its encoding and
`parseFrame` reads the frame at the start of a buffer.  The two are inverse
(`parseFrame_eq_some_iff`).  `PollMessage` enters its switch with exactly the
frames (`switched_eq`), so it executes these and nothing else
(`PollMessage_frame`, `PollMessage_reject`).
-/

namespace NetCamera

open CString

/-! ## Frames -/

/-- A command frame.  The length field is not looked at. -/
structure Frame where
  Lenth : Buf UInt8 4
  cmd : Cmd
  para : List UInt8
  para_pos : 0 < para.length
  para_le : para.length ≤ 20
  para_text : 0 ∉ para
  deriving DecidableEq

namespace Frame

/-- The frame up to its parameter. -/
def front (f : Frame) : List UInt8 :=
  startText ++ f.Lenth.elems ++ [0, 0, 0, 0] ++ headText ++ f.cmd.text

/-- The encoding of a frame. -/
def bytes (f : Frame) : List UInt8 := f.front ++ f.para ++ [0] ++ endText

theorem length_front (f : Frame) : f.front.length = 25 := by
  have h0 : startText.length = 8 := rfl
  have h1 : headText.length = 2 := rfl
  simp only [front, List.length_append, Buf.length_elems, Cmd.length_text, h0, h1,
    List.length_cons, List.length_nil]

theorem length_bytes (f : Frame) : f.bytes.length = 28 + f.para.length := by
  have h0 : endText.length = 2 := rfl
  simp only [bytes, List.length_append, length_front, h0, List.length_cons, List.length_nil]
  omega

end Frame

/-- The command of a buffer with the right start, zero width and height and the
right head. -/
def commandOf (recbuf : RecvBuf) : Option Cmd :=
  if recbuf.slice 0 8 = startText ∧ recbuf.slice 12 4 = [0, 0, 0, 0] ∧
      recbuf.slice 16 2 = headText then
    GetCmd (recbuf.slice 18 7)
  else none

/-- The parameter text of a buffer. -/
def paramText (recbuf : RecvBuf) : List UInt8 := cstr recbuf.elems 25

theorem length_recbuf (recbuf : RecvBuf) : recbuf.elems.length = 2000 := recbuf.length_elems

/-- The frame at the start of a buffer. -/
def parseFrame (recbuf : RecvBuf) : Option Frame :=
  match commandOf recbuf with
  | none => none
  | some c =>
    if h : 0 < (paramText recbuf).length ∧ (paramText recbuf).length ≤ 20 then
      if recbuf.slice (26 + (paramText recbuf).length) 2 = endText then
        some { Lenth := ⟨recbuf.slice 8 4, recbuf.length_slice (by decide)⟩, cmd := c
               para := paramText recbuf, para_pos := h.1, para_le := h.2
               para_text := zero_not_mem_cstr _ _ }
      else none
    else none

/-! ## The checks of PollMessage -/

/-- `GetCmd` recognises exactly the command texts. -/
theorem GetCmd_eq_some_iff {str : List UInt8} (hlen : str.length = 7) {c : Cmd} :
    GetCmd str = some c ↔ str = c.text := by
  have htest : ∀ d : Cmd, strcmp (str ++ [0]) d.text = true ↔ str = d.text := by
    intro d
    have hd : cstr d.text 0 = d.text := by
      have h := cstr_append (Cmd.zero_not_mem_text d) []
      simpa using h
    rw [strcmp, hd, beq_iff_eq,
      cstr_eq_iff (Cmd.zero_not_mem_text d) (by rw [List.length_append, hlen, d.length_text]; rfl),
      List.append_left_inj]
  constructor
  · intro h
    have hfound := List.find?_some h
    exact (htest c).mp hfound
  · intro h
    unfold GetCmd
    cases hfind : Cmd.all.find? fun c => strcmp (str ++ [0]) c.text with
    | none =>
        rw [List.find?_eq_none] at hfind
        exact absurd ((htest c).mpr h) (hfind c (Cmd.mem_all c))
    | some d =>
        have htrue := List.find?_some hfind
        have hd : str = d.text := (htest d).mp htrue
        rw [Cmd.text_injective (hd.symm.trans h)]

/-- The scan of `GetParaLen` stops at the terminator or after `n` characters. -/
theorem paraLenLoop_eq (para : List UInt8) (n i : Nat) :
    paraLenLoop para n i = i + min (strlen para i) n := by
  induction n generalizing i with
  | zero => simp [paraLenLoop]
  | succ n ih =>
      unfold paraLenLoop
      by_cases hi : para.getD i 0 = 0
      · have hzero : strlen para i = 0 := by
          rw [strlen, cstr]
          cases hd : para.drop i with
          | nil => rfl
          | cons b t =>
              have hb : b = 0 := by
                rw [List.getD_eq_getElem?_getD, ← List.head?_drop, hd] at hi
                simpa using hi
              simp [hb]
        rw [if_neg (by simpa using hi), hzero]
        omega
      · have hsucc : strlen para i = strlen para (i + 1) + 1 := by
          rw [strlen, strlen, cstr, cstr, ← List.drop_drop]
          cases hd : para.drop i with
          | nil =>
              rw [List.getD_eq_getElem?_getD, ← List.head?_drop, hd] at hi
              exact absurd rfl hi
          | cons b t =>
              have hb : b ≠ 0 := by
                rw [List.getD_eq_getElem?_getD, ← List.head?_drop, hd] at hi
                simpa using hi
              simp [hb]
        rw [if_pos (by simpa using hi), ih, hsucc]
        omega

/-- The parameter length `PollMessage` computes: that of the text, or the mark
`0xff` when it is longer than 20. -/
theorem GetParaLen_eq (recbuf : RecvBuf) :
    GetParaLen (recbuf.elems.drop 25) =
      if (paramText recbuf).length ≤ 20 then UInt8.ofNat (paramText recbuf).length else 0xff := by
  have hlen : strlen (recbuf.elems.drop 25) 0 = (paramText recbuf).length := by
    rw [strlen, paramText, cstr_eq_drop recbuf.elems 25]
  simp only [GetParaLen, paraLenLoop_eq, hlen]
  by_cases h : (paramText recbuf).length ≤ 20
  · rw [if_neg (by omega), if_pos h]
    congr 1
    omega
  · rw [if_pos (by omega), if_neg h]

/-- The start field compares equal exactly when it is the start text. -/
theorem strcmp_start (recbuf : RecvBuf) :
    strcmp (recbuf.slice 0 8) startText = true ↔ recbuf.slice 0 8 = startText := by
  have hlen : (recbuf.slice 0 8).length = 8 := recbuf.length_slice (by decide)
  have hstart : cstr startText 0 = ascii ['C', 'O', 'R', 'E', 'N', 'C', 'E'] := by decide
  rw [strcmp, beq_iff_eq, hstart]
  exact cstr_eq_iff (by decide) (by rw [hlen]; rfl)

theorem sum_eq_zero_iff {b0 b1 b2 b3 : UInt8} :
    ([b0, b1].map UInt8.toNat).sum + ([b2, b3].map UInt8.toNat).sum = 0 ↔
      [b0, b1] ++ [b2, b3] = [0, 0, 0, 0] := by
  simp only [List.map_cons, List.map_nil, List.sum_cons, List.sum_nil, List.cons_append,
    List.nil_append, List.cons.injEq, ← UInt8.toNat_inj, and_true]
  have hzero : (0 : UInt8).toNat = 0 := rfl
  rw [hzero]
  omega

/-- Width and height add up to zero exactly when their four bytes are zero. -/
theorem byteSum_eq_zero_iff (recbuf : RecvBuf) :
    byteSum recbuf 12 + byteSum recbuf 14 = 0 ↔ recbuf.slice 12 4 = [0, 0, 0, 0] := by
  have hadd : recbuf.slice 12 4 = recbuf.slice 12 2 ++ recbuf.slice 14 2 := recbuf.slice_add 12 2 2
  have h12 : (recbuf.slice 12 2).length = 2 := recbuf.length_slice (by decide)
  have h14 : (recbuf.slice 14 2).length = 2 := recbuf.length_slice (by decide)
  rw [byteSum, byteSum, hadd]
  match hw : recbuf.slice 12 2, hh : recbuf.slice 14 2 with
  | [_, _], [_, _] => exact sum_eq_zero_iff
  | [], _ => rw [hw] at h12; cases h12
  | [_], _ => rw [hw] at h12; cases h12
  | _ :: _ :: _ :: _, _ => rw [hw] at h12; simp at h12
  | _, [] => rw [hh] at h14; cases h14
  | _, [_] => rw [hh] at h14; cases h14
  | _, _ :: _ :: _ :: _ => rw [hh] at h14; simp at h14

/-- The command echoed in the acknowledgement is the one recognised. -/
theorem slice_of_commandOf {recbuf : RecvBuf} {c : Cmd} (h : commandOf recbuf = some c) :
    recbuf.slice 18 7 = c.text := by
  unfold commandOf at h
  split at h
  · exact (GetCmd_eq_some_iff (recbuf.length_slice (by decide))).mp h
  · cases h

/-! ## Encoding and parsing -/

/-- The buffer holds the fields of a frame at their places. -/
structure Fields (recbuf : RecvBuf) (f : Frame) : Prop where
  start : recbuf.slice 0 8 = startText
  lenth : recbuf.slice 8 4 = f.Lenth.elems
  zero : recbuf.slice 12 4 = [0, 0, 0, 0]
  head : recbuf.slice 16 2 = headText
  cmd : recbuf.slice 18 7 = f.cmd.text
  para : paramText recbuf = f.para
  fin : recbuf.slice (26 + f.para.length) 2 = endText

/-- A buffer that starts with a frame holds its fields. -/
theorem fields_of_bytes {recbuf : RecvBuf} {f : Frame} (h : f.bytes <+: recbuf.elems) :
    Fields recbuf f := by
  obtain ⟨t, ht⟩ := h
  have h0 : startText.length = 8 := rfl
  have h1 : headText.length = 2 := rfl
  have h2 : endText.length = 2 := rfl
  have hL : f.Lenth.elems.length = 4 := f.Lenth.length_elems
  have hC := f.cmd.length_text
  have hfront : recbuf.elems.take 25 = f.front := by
    rw [← ht, Frame.bytes, List.append_assoc, List.append_assoc, List.append_assoc,
      ← f.length_front, List.take_left]
  have hback : recbuf.elems.drop 25 = f.para ++ 0 :: (endText ++ t) := by
    rw [← ht, Frame.bytes, List.append_assoc, List.append_assoc, List.append_assoc,
      ← f.length_front, List.drop_left]
    rfl
  -- a slice of the front is read off the front
  have hslice : ∀ off k, off + k ≤ 25 → recbuf.slice off k = (f.front.drop off).take k := by
    intro off k hle
    rw [Buf.slice, ← hfront, List.drop_take, List.take_take, Nat.min_eq_left (by omega)]
  constructor
  · rw [hslice 0 8 (by omega)]
    simp [Frame.front, h0]
  · rw [hslice 8 4 (by omega)]
    simp [Frame.front, h0, hL]
  · rw [hslice 12 4 (by omega)]
    simp [Frame.front, List.drop_append, List.take_append, h0, hL]
  · rw [hslice 16 2 (by omega)]
    simp [Frame.front, List.drop_append, List.drop_of_length_le, h0, h1, hL]
  · rw [hslice 18 7 (by omega)]
    simp [Frame.front, List.drop_append, List.drop_of_length_le, List.take_of_length_le, h0, h1,
      hL, hC]
  · rw [paramText, cstr_eq_drop, hback, cstr_append_zero f.para_text]
  · have hidx : 26 + f.para.length = 25 + (f.para.length + 1) := by omega
    rw [hidx, Buf.slice, ← List.drop_drop, hback, List.drop_append,
      List.drop_of_length_le (by omega)]
    simp [h2]

/-- A buffer that holds the fields of a frame starts with it. -/
theorem bytes_of_fields {recbuf : RecvBuf} {f : Frame} (h : Fields recbuf f) :
    f.bytes <+: recbuf.elems := by
  have hstr : 25 + strlen recbuf.elems 25 < recbuf.elems.length := by
    have hlen : strlen recbuf.elems 25 = f.para.length := congrArg List.length h.para
    have hle := f.para_le
    rw [length_recbuf, hlen]
    omega
  have hpara : recbuf.slice 25 (f.para.length + 1) = f.para ++ [0] := by
    rw [← h.para]
    exact take_strlen_succ hstr
  -- the buffer up to the end mark, cut into the fields
  have hcut : recbuf.slice 0 (28 + f.para.length) = f.bytes := by
    have hsum : 28 + f.para.length = 8 + 4 + 4 + 2 + 7 + (f.para.length + 1) + 2 := by omega
    have hidx : 0 + (8 + 4 + 4 + 2 + 7 + (f.para.length + 1)) = 26 + f.para.length := by omega
    rw [hsum, Buf.slice_add, Buf.slice_add, Buf.slice_add, Buf.slice_add, Buf.slice_add,
      Buf.slice_add, hidx]
    simp only [Nat.zero_add, Nat.reduceAdd]
    rw [h.start, h.lenth, h.zero, h.head, h.cmd, hpara, h.fin]
    simp [Frame.bytes, Frame.front]
  rw [← hcut]
  exact List.take_prefix _ _

/-- The parser has checked the fields it reads. -/
theorem fields_of_parseFrame {recbuf : RecvBuf} {f : Frame} (h : parseFrame recbuf = some f) :
    Fields recbuf f := by
  unfold parseFrame at h
  cases hc : commandOf recbuf with
  | none => rw [hc] at h; cases h
  | some c =>
      rw [hc] at h
      simp only at h
      split at h
      · next hlen =>
          split at h
          · next hend =>
              have hcmd := slice_of_commandOf hc
              unfold commandOf at hc
              split at hc
              · next hfields =>
                  rw [← Option.some.inj h]
                  exact ⟨hfields.1, rfl, hfields.2.1, hfields.2.2, hcmd, rfl, hend⟩
              · cases hc
          · cases h
      · cases h

/-- The parser finds a frame whose fields are there. -/
theorem parseFrame_of_fields {recbuf : RecvBuf} {f : Frame} (h : Fields recbuf f) :
    parseFrame recbuf = some f := by
  have hc : commandOf recbuf = some f.cmd := by
    rw [commandOf, if_pos ⟨h.start, h.zero, h.head⟩, h.cmd]
    exact (GetCmd_eq_some_iff f.cmd.length_text).mpr rfl
  have hL := h.lenth
  rw [parseFrame, hc]
  simp only [h.para]
  rw [dif_pos ⟨f.para_pos, f.para_le⟩, if_pos h.fin]
  obtain ⟨⟨Lenth, hLenth⟩, cmd, para, hpos, hle, htext⟩ := f
  simp only at hL
  simp only [Option.some.injEq, Frame.mk.injEq, Buf.mk.injEq, and_self, and_true]
  exact hL

/-- **The parser inverts the encoding**: it finds exactly the frame the buffer
starts with. -/
theorem parseFrame_eq_some_iff {recbuf : RecvBuf} {f : Frame} :
    parseFrame recbuf = some f ↔ f.bytes <+: recbuf.elems :=
  ⟨fun h => bytes_of_fields (fields_of_parseFrame h),
    fun h => parseFrame_of_fields (fields_of_bytes h)⟩

/-! ## What PollMessage does -/

/-- `PollMessage` up to `switch(CmdVal)`: the command and the `ParaLen` with which the
switch is entered, if it is. -/
def switched (recbuf : RecvBuf) : Option (Cmd × UInt8) :=
  let Start := recbuf.slice 0 8
  if strcmp Start startText then
    if byteSum recbuf 12 + byteSum recbuf 14 = 0 then
      let Head := recbuf.slice 16 2
      if Head = headText then
        match GetCmd (recbuf.slice 18 7) with
        | some c =>
          let ParaLen := GetParaLen (recbuf.elems.drop 25)
          if ParaLen = 0xff then none
          else if ParaLen = 0 then none
          else if recbuf.slice (25 + ParaLen.toNat + 1) 2 = endText then some (c, ParaLen) else none
        | none => none
      else none
    else none
  else none

/-- The locals with the parameter of a frame copied over `Para`. -/
def Frame.stack (f : Frame) (stk : Stack) : Stack := { stk with Para := stk.Para.write 0 f.para }

@[simp] theorem Frame.stack_iRtnData (f : Frame) (stk : Stack) :
    (f.stack stk).iRtnData = stk.iRtnData := rfl

/-- Execute a frame: its parameter goes over `Para`, its length to `ParaLen`. -/
def execFrame (f : Frame) (stk : Stack) (s : Cam) : Outcome × Cam :=
  runCmd f.cmd f.cmd.text endText (f.stack stk)
    { s with ParaLen := UInt8.ofNat f.para.length }

/-- The value a rejected buffer leaves in `ParaLen`. -/
def rejectLen (recbuf : RecvBuf) (ParaLen : UInt8) : UInt8 :=
  match commandOf recbuf with
  | none => ParaLen
  | some _ =>
    if (paramText recbuf).length ≤ 20 then UInt8.ofNat (paramText recbuf).length else 0xff

/-- The checks in front of the command, put together. -/
theorem checks_eq {β : Type} (recbuf : RecvBuf) (found : Cmd → β) (rejected : β) :
    (if strcmp (recbuf.slice 0 8) startText then
      if byteSum recbuf 12 + byteSum recbuf 14 = 0 then
        if recbuf.slice 16 2 = headText then
          match GetCmd (recbuf.slice 18 7) with
          | some c => found c
          | none => rejected
        else rejected
      else rejected
    else rejected) = (commandOf recbuf).elim rejected found := by
  rw [commandOf]
  by_cases hstart : recbuf.slice 0 8 = startText
  · rw [if_pos ((strcmp_start recbuf).mpr hstart)]
    by_cases hzero : recbuf.slice 12 4 = [0, 0, 0, 0]
    · rw [if_pos ((byteSum_eq_zero_iff recbuf).mpr hzero)]
      by_cases hhead : recbuf.slice 16 2 = headText
      · rw [if_pos hhead, if_pos ⟨hstart, hzero, hhead⟩]
        cases GetCmd (recbuf.slice 18 7) <;> rfl
      · rw [if_neg hhead, if_neg fun h => hhead h.2.2]
        rfl
    · rw [if_neg fun h => hzero ((byteSum_eq_zero_iff recbuf).mp h),
        if_neg fun h => hzero h.2.1]
      rfl
  · rw [if_neg fun h => hstart ((strcmp_start recbuf).mp h), if_neg fun h => hstart h.1]
    rfl

/-- **The switch is entered with exactly the frames.** -/
theorem switched_eq (recbuf : RecvBuf) :
    switched recbuf = (parseFrame recbuf).map fun f => (f.cmd, UInt8.ofNat f.para.length) := by
  have hchecks : switched recbuf = (commandOf recbuf).elim none _ := checks_eq recbuf _ none
  rw [hchecks, parseFrame]
  cases commandOf recbuf with
  | none => rfl
  | some c =>
      simp only [Option.elim_some, GetParaLen_eq]
      by_cases hle : (paramText recbuf).length ≤ 20
      · have hnat : (UInt8.ofNat (paramText recbuf).length).toNat = (paramText recbuf).length := by
          rw [UInt8.toNat_ofNat']
          omega
        have hff : UInt8.ofNat (paramText recbuf).length ≠ 0xff := by
          intro heq
          have h255 := congrArg UInt8.toNat heq
          rw [hnat, show (0xff : UInt8).toNat = 255 from rfl] at h255
          omega
        have hidx : 25 + (paramText recbuf).length + 1 = 26 + (paramText recbuf).length := by omega
        rw [if_pos hle, if_neg hff, hnat, hidx]
        by_cases hpos : 0 < (paramText recbuf).length
        · have hzero : UInt8.ofNat (paramText recbuf).length ≠ 0 := by
            intro heq
            have h0 := congrArg UInt8.toNat heq
            rw [hnat, UInt8.toNat_zero] at h0
            omega
          rw [if_neg hzero, dif_pos ⟨hpos, hle⟩]
          split <;> rfl
        · have hlen : (paramText recbuf).length = 0 := by omega
          rw [dif_neg fun h => hpos h.1, hlen, if_pos (show UInt8.ofNat 0 = 0 from rfl)]
          rfl
      · rw [if_neg hle, if_pos rfl, dif_neg fun h => hle h.2]
        rfl

/-- Entered or not, the switch decides what `PollMessage` does. -/
theorem PollMessage_switched (recbuf : RecvBuf) (stk : Stack) (s : Cam) :
    PollMessage recbuf stk s = match switched recbuf with
      | some (c, ParaLen) =>
        runCmd c (recbuf.slice 18 7) (recbuf.slice (25 + ParaLen.toNat + 1) 2)
          { stk with Para := stk.Para.write 0 (recbuf.slice 25 ParaLen.toNat) }
          { s with ParaLen := ParaLen }
      | none => (.returned, { s with ParaLen := rejectLen recbuf s.ParaLen }) := by
  have hpoll : PollMessage recbuf stk s = (commandOf recbuf).elim (Outcome.returned, s) _ :=
    checks_eq recbuf _ (Outcome.returned, s)
  have hswitched : switched recbuf = (commandOf recbuf).elim none _ := checks_eq recbuf _ none
  rw [hpoll, hswitched, rejectLen]
  cases commandOf recbuf with
  | none => rfl
  | some c =>
      simp only [Option.elim_some, ← GetParaLen_eq]
      split
      · rfl
      · split
        · rfl
        · split <;> rfl

/-- **A frame is executed.** -/
theorem PollMessage_frame {recbuf : RecvBuf} {f : Frame} (h : parseFrame recbuf = some f)
    (stk : Stack) (s : Cam) : PollMessage recbuf stk s = execFrame f stk s := by
  have hfields := fields_of_parseFrame h
  have hnat : (UInt8.ofNat f.para.length).toNat = f.para.length := by
    have hle := f.para_le
    rw [UInt8.toNat_ofNat']
    omega
  have hidx : 25 + f.para.length + 1 = 26 + f.para.length := by omega
  have hpara : recbuf.slice 25 f.para.length = f.para := by
    rw [← hfields.para]
    exact take_strlen recbuf.elems 25
  rw [PollMessage_switched, switched_eq, h]
  simp only [Option.map_some, hnat]
  rw [hfields.cmd, hidx, hfields.fin, hpara, execFrame]
  rfl

/-- **Anything else changes at most `ParaLen`.** -/
theorem PollMessage_reject {recbuf : RecvBuf} (h : parseFrame recbuf = none) (stk : Stack)
    (s : Cam) : PollMessage recbuf stk s =
      (.returned, { s with ParaLen := rejectLen recbuf s.ParaLen }) := by
  rw [PollMessage_switched, switched_eq, h]
  rfl

end NetCamera
