import NetCamera.Protocol.Frame

/-!
# NetCamera.Protocol.Ack

The acknowledgement of an executed frame, as bytes.

`ackFrame` is the frame a client expects; `execFrame_get` and `execFrame_set`
show that the reply read out of `ValidCmd` is such a frame, and say what a
command does to the rest of the state.  A get command replies with the text it
prints behind the fixed fields -- except `getver`, which prints nothing and
replies with the text that happens to stand there (`valueText`).
-/

namespace NetCamera

open CString

/-! ## The frames sent back -/

/-- An acknowledgement with length byte `AckLen` and the value field `body`. -/
def ackFrame (c : Cmd) (AckLen : UInt8) (body : List UInt8) : List UInt8 :=
  startText ++ [0, 0, 0, AckLen] ++ [0, 0, 0, 0] ++ headText ++ c.text ++ body ++ endText

/-- The acknowledgement of a get command that answers `txt`. -/
def valueReply (c : Cmd) (txt : List UInt8) : List UInt8 :=
  ackFrame c (UInt8.ofNat (25 + txt.length) - 9) (txt ++ [0])

/-- The acknowledgement of a set command whose handler returned `RtnLen`. -/
def setReply (c : Cmd) (RtnLen : UInt8) : List UInt8 := ackFrame c (15 + RtnLen + 1) [0, 0]

/-- Acknowledgements with the same fields are told apart by their value. -/
theorem valueReply_inj {c : Cmd} {t u : List UInt8} :
    valueReply c t = valueReply c u ↔ t = u := by
  constructor
  · intro h
    simp only [valueReply, ackFrame, List.append_assoc] at h
    have hrest := List.append_cancel_left h
    obtain ⟨-, hrest⟩ := List.append_inj hrest rfl
    have hbody := List.append_cancel_left (List.append_cancel_left (List.append_cancel_left hrest))
    exact List.append_cancel_right hbody
  · intro h
    rw [h]

/-! ## The text in ValidCmd -/

/-- The text that stands at `ValidCmd+25`. -/
def Cam.text (s : Cam) : List UInt8 := cstr s.ValidCmd.elems 25

theorem zero_not_mem_text (s : Cam) : 0 ∉ s.text := zero_not_mem_cstr _ _

/-- A terminated text at `pos` is the string there. -/
theorem cstr_of_slice {n : Nat} {b : Buf UInt8 n} {pos : Nat} {u : List UInt8} (hu : 0 ∉ u)
    (h : b.slice pos (u.length + 1) = u ++ [0]) : cstr b.elems pos = u := by
  rw [cstr_eq_drop, ← List.take_append_drop (u.length + 1) (b.elems.drop pos)]
  unfold Buf.slice at h
  rw [h, List.append_assoc]
  exact cstr_append_zero hu _

/-- The text with its terminator, as bytes of the buffer. -/
theorem slice_text {s : Cam} (h : s.text.length ≤ 55) :
    s.ValidCmd.slice 25 (s.text.length + 1) = s.text ++ [0] := by
  refine take_strlen_succ ?_
  have hlen : strlen s.ValidCmd.elems 25 = s.text.length := rfl
  rw [hlen, Buf.length_elems]
  omega

/-- Printing sets the text. -/
theorem text_print (s : Cam) {txt : List UInt8} (htxt : 0 ∉ txt) (hlen : txt.length ≤ 55) :
    (s.print txt).text = txt := by
  refine cstr_of_slice htxt ?_
  have hlen' : (txt ++ [0]).length = txt.length + 1 := by simp
  exact Buf.slice_write_eq _ hlen' (by omega)

/-- The fixed fields of an acknowledgement. -/
theorem slice_ackHead {Cmd : List UInt8} (hCmd : Cmd.length = 7) (V : Buf UInt8 100) :
    (ackHead Cmd V).slice 0 8 = startText ∧ (ackHead Cmd V).slice 12 4 = [0, 0, 0, 0] ∧
    (ackHead Cmd V).slice 16 2 = headText ∧ (ackHead Cmd V).slice 18 7 = Cmd := by
  have h0 : startText.length = 8 := rfl
  have h1 : headText.length = 2 := rfl
  have h2 : ([0, 0, 0, 0] : List UInt8).length = 4 := rfl
  refine ⟨?_, ?_, ?_, ?_⟩
  · rw [ackHead, Buf.slice_write_before _ (by omega), Buf.slice_write_before _ (by omega),
      Buf.slice_write_before _ (by omega), Buf.slice_write_eq _ h0 (by omega)]
  · rw [ackHead, Buf.slice_write_before _ (by omega), Buf.slice_write_before _ (by omega),
      Buf.slice_write_eq _ h2 (by omega)]
  · rw [ackHead, Buf.slice_write_before _ (by omega), Buf.slice_write_eq _ h1 (by omega)]
  · rw [ackHead, Buf.slice_write_eq _ hCmd (by omega)]

/-- The fixed fields end before the text. -/
theorem text_ackHead {Cmd : List UInt8} (hCmd : Cmd.length = 7) (s : Cam) :
    cstr (ackHead Cmd s.ValidCmd).elems 25 = s.text := by
  have h0 : startText.length = 8 := rfl
  have h1 : headText.length = 2 := rfl
  have h2 : ([0, 0, 0, 0] : List UInt8).length = 4 := rfl
  rw [ackHead, cstr_eq_drop, Buf.drop_write_after _ (by omega) (by omega),
    Buf.drop_write_after _ (by omega) (by omega), Buf.drop_write_after _ (by omega) (by omega),
    Buf.drop_write_after _ (by omega) (by omega), ← cstr_eq_drop, Cam.text]

/-- A buffer with the fixed fields, a value field and the end mark is an
acknowledgement once its length is filled in. -/
theorem slice_ackFrame {c : Cmd} {V W : Buf UInt8 100} {n : Nat} {AckLen : UInt8}
    {body : List UInt8} (hn : 27 + n ≤ 100)
    (hfront : ∀ off k, off + k ≤ 25 → W.slice off k = (ackHead c.text V).slice off k)
    (hbody : W.slice 25 n = body) (hend : W.slice (25 + n) 2 = endText) :
    (W.write 8 [0, 0, 0, AckLen]).slice 0 (27 + n) = ackFrame c AckLen body := by
  obtain ⟨hstart, hzero, hhead, hcmd⟩ := slice_ackHead c.length_text V
  have hlen : ([0, 0, 0, AckLen] : List UInt8).length = 4 := rfl
  have hsum : 27 + n = 8 + 4 + 4 + 2 + 7 + n + 2 := by omega
  have hidx : 0 + (8 + 4 + 4 + 2 + 7 + n) = 25 + n := by omega
  rw [hsum, Buf.slice_add, Buf.slice_add, Buf.slice_add, Buf.slice_add, Buf.slice_add,
    Buf.slice_add, hidx]
  simp only [Nat.zero_add, Nat.reduceAdd]
  rw [Buf.slice_write_before _ (by omega), Buf.slice_write_eq _ hlen (by omega),
    Buf.slice_write_after _ (by omega) (by omega), Buf.slice_write_after _ (by omega) (by omega),
    Buf.slice_write_after _ (by omega) (by omega), Buf.slice_write_after _ (by omega) (by omega),
    Buf.slice_write_after _ (by omega) (by omega), hbody, hend,
    hfront 0 8 (by omega), hfront 12 4 (by omega), hfront 16 2 (by omega),
    hfront 18 7 (by omega), hstart, hzero, hhead, hcmd, ackFrame]

/-! ## The value of a get command -/

/-- The text a get command answers.  `getver` prints nothing: it answers what
stands at `ValidCmd+25`. -/
def valueText (c : Cmd) (s : Cam) : List UInt8 :=
  match getCases s.SaveParaList c with
  | some txt => txt
  | none => if c = .getver then s.text else helpText

theorem length_decimal_u8 (v : UInt8) : (decimal v.toNat).length ≤ 3 := by
  have hv := v.toNat_lt
  exact length_decimal_le (by omega) (by omega)

theorem length_decimal_u16 (v : UInt16) : (decimal v.toNat).length ≤ 5 := by
  have hv := v.toNat_lt
  exact length_decimal_le (by omega) (by omega)

/-- Every printed value is short. -/
theorem length_getCases_le {p : SavePara} {c : Cmd} {txt : List UInt8}
    (h : getCases p c = some txt) : txt.length ≤ 55 := by
  have h8 := length_decimal_u8
  have h16 := length_decimal_u16
  cases c <;> simp only [getCases, Option.some.injEq, reduceCtorEq] at h <;> subst h
  case getipa =>
    have h0 := h8 p.ip0
    have h1 := h8 p.ip1
    have h2 := h8 p.ip2
    have h3 := h8 p.ip3
    simp [bracketed]
    omega
  case getsiz =>
    have h0 := h16 p.size0
    have h1 := h16 p.size1
    simp [bracketed]
    omega
  case getpot => exact Nat.le_trans (h16 _) (by omega)
  all_goals exact Nat.le_trans (h8 _) (by omega)

/-- Every value fits into `ValidCmd` behind the fixed fields. -/
theorem length_valueText_le {s : Cam} (h : s.text.length ≤ 55) (c : Cmd) :
    (valueText c s).length ≤ 55 := by
  have hhelp : helpText.length = 55 := rfl
  unfold valueText
  split
  · next txt htxt => exact length_getCases_le htxt
  · split
    · exact h
    · omega

theorem zero_not_mem_bracketed (vs : List Nat) : 0 ∉ bracketed vs := by
  have hopen : (0 : UInt8) ∉ [chr '['] := by decide
  have hclose : (0 : UInt8) ∉ [chr ']'] := by decide
  have hcomma : (0 : UInt8) ∉ [chr ','] := by decide
  have hinner : 0 ∉ ((vs.map decimal).intersperse [chr ',']).flatten := by
    induction vs with
    | nil => simp
    | cons v vs ih =>
        cases vs with
        | nil => simpa using zero_not_mem_decimal v
        | cons w vs =>
            simp only [List.map_cons, List.intersperse_cons_cons, List.flatten_cons,
              List.mem_append, not_or]
            exact ⟨zero_not_mem_decimal v, hcomma, ih⟩
  simp only [bracketed, List.mem_append, not_or]
  exact ⟨⟨hopen, hinner⟩, hclose⟩

theorem zero_not_mem_getCases {p : SavePara} {c : Cmd} {txt : List UInt8}
    (h : getCases p c = some txt) : 0 ∉ txt := by
  cases c <;> simp only [getCases, Option.some.injEq, reduceCtorEq] at h <;> subst h
  case getipa => exact zero_not_mem_bracketed _
  case getsiz => exact zero_not_mem_bracketed _
  all_goals exact zero_not_mem_decimal _

theorem zero_not_mem_valueText (c : Cmd) (s : Cam) : 0 ∉ valueText c s := by
  have hhelp : 0 ∉ helpText := by decide
  unfold valueText
  split
  · next txt htxt => exact zero_not_mem_getCases htxt
  · split
    · exact zero_not_mem_text s
    · exact hhelp

/-! ## Get commands -/

/-- What a get command does: it answers its value and changes nothing but the
acknowledgement. -/
structure GetAck (c : Cmd) (s s' : Cam) : Prop where
  para : s'.para = s.para
  flash : s'.flash = s.flash
  regs : s'.regs = s.regs
  text : s'.text = valueText c s
  ParaLen : s'.ParaLen.toNat = 25 + (valueText c s).length
  reply : s'.reply = valueReply c (valueText c s)

/-- An acknowledgement built over a text of at most 55 bytes. -/
theorem getAck_of_text {c : Cmd} {s s1 : Cam} (hpara : s1.para = s.para)
    (hflash : s1.flash = s.flash) (hregs : s1.regs = s.regs) {V : Buf UInt8 100}
    (hfront : ∀ off k, off + k ≤ 25 → s1.ValidCmd.slice off k = (ackHead c.text V).slice off k)
    (htext : s1.text = valueText c s) (hlen : (valueText c s).length ≤ 55) :
    GetAck c s (ackLength ((ackValue endText s1).ParaLen - 9) (ackValue endText s1)) := by
  have hptr : (strchr s1.ValidCmd.elems 25 0).getD 0 = 25 + (valueText c s).length := by
    rw [strchr_zero, Option.getD_some, ← htext]
    rfl
  have hnat : (UInt8.ofNat (25 + (valueText c s).length)).toNat =
      25 + (valueText c s).length := by
    rw [UInt8.toNat_ofNat']
    omega
  have hend : endText.length = 2 := rfl
  have hslice : s1.ValidCmd.slice 25 ((valueText c s).length + 1) = valueText c s ++ [0] := by
    rw [← htext] at hlen ⊢
    exact slice_text hlen
  have hval : ackValue endText s1 = { s1 with
      ParaLen := UInt8.ofNat (25 + (valueText c s).length)
      ValidCmd := s1.ValidCmd.write (25 + (valueText c s).length + 1) endText } := by
    simp only [ackValue, hptr, hnat]
  rw [hval]
  have hlast : (s1.ValidCmd.write (25 + (valueText c s).length + 1) endText).slice 25
      ((valueText c s).length + 1) = valueText c s ++ [0] := by
    rw [Buf.slice_write_before _ (by omega), hslice]
  constructor
  · exact hpara
  · exact hflash
  · exact hregs
  · rw [Cam.text, ackLength, cstr_eq_drop, Buf.drop_write_after _ (by simp) (by simp),
      ← cstr_eq_drop]
    exact cstr_of_slice (zero_not_mem_valueText c s) hlast
  · exact hnat
  · have hreply : 25 + (valueText c s).length + 3 = 27 + ((valueText c s).length + 1) := by omega
    have hidx : 25 + ((valueText c s).length + 1) = 25 + (valueText c s).length + 1 := by omega
    rw [Cam.reply, Cam.replyLen, ackLength]
    simp only [hnat]
    rw [hreply]
    refine slice_ackFrame (V := V) (by omega) (fun off k hle => ?_) hlast ?_
    · rw [Buf.slice_write_before _ (by omega), hfront off k hle]
    · rw [hidx]
      exact Buf.slice_write_eq _ hend (by omega)

/-- The set cases of the switch are those of the set commands. -/
theorem setCases_isSome (c : Cmd) : (setCases c).isSome = c.isSet := by
  cases c <;> rfl

/-- The get commands with a value of their own are answered by the second branch
of the acknowledgement. -/
theorem ackBody_of_getCases {c : Cmd} {p : SavePara} {txt : List UInt8}
    (h : getCases p c = some txt) : c.isSet = false ∧ (c.val > 0x0f && c.val < 0x18) = true := by
  cases c <;> first | exact ⟨rfl, rfl⟩ | cases h

/-- The one other get command that prints nothing in the switch. -/
theorem eq_gethep {c : Cmd} {p : SavePara} (hget : c.isSet = false)
    (hcase : getCases p c = none) (hver : c ≠ .getver) : c = .gethep := by
  cases c <;> first
    | rfl
    | exact absurd rfl hver
    | exact absurd hget (by decide)
    | cases hcase

/-- **A get command answers its value.** -/
theorem execFrame_get {f : Frame} (hget : f.cmd.isSet = false) (stk : Stack) {s : Cam}
    (hs : s.text.length ≤ 55) :
    ∃ s', execFrame f stk s = (.returned, s') ∧ GetAck f.cmd s s' := by
  have hlen := length_valueText_le hs f.cmd
  have hzero := zero_not_mem_valueText f.cmd s
  have hCmd := f.cmd.length_text
  have hset : setCases f.cmd = none := by
    rw [← Option.isNone_iff_eq_none, ← Option.not_isSome, setCases_isSome, hget]
    rfl
  have hreset : f.cmd.resets = false := by
    cases hc : f.cmd <;> rw [hc] at hget <;> first | rfl | cases hget
  rw [execFrame, runCmd, switchCmd, hset, hreset]
  cases hcase : getCases s.SaveParaList f.cmd with
  | some txt =>
      -- the text is printed by the switch
      have htxt : valueText f.cmd s = txt := by rw [valueText, hcase]
      obtain ⟨hnot, hval⟩ := ackBody_of_getCases hcase
      have hcase' : getCases ({ s with ParaLen := UInt8.ofNat f.para.length } : Cam).SaveParaList
          f.cmd = some txt := hcase
      simp only [hcase', ackBody, hnot, hval, if_true, Bool.false_eq_true, if_false]
      refine ⟨_, rfl, getAck_of_text rfl rfl rfl (fun off k _ => rfl) ?_ hlen⟩
      rw [htxt] at hlen hzero ⊢
      exact (text_ackHead hCmd _).trans (text_print _ hzero hlen)
  | none =>
      have hcase' : getCases ({ s with ParaLen := UInt8.ofNat f.para.length } : Cam).SaveParaList
          f.cmd = none := hcase
      simp only [hcase', ackBody, hget, Bool.false_eq_true, if_false]
      refine ⟨_, rfl, ?_⟩
      by_cases hver : f.cmd = .getver
      · -- nothing is printed: the old text stays
        have htxt : valueText f.cmd s = s.text := by
          rw [valueText, hcase]
          exact if_pos hver
        have hval : (f.cmd.val > 0x0f && f.cmd.val < 0x18) = true := by rw [hver]; rfl
        rw [if_pos hval]
        refine getAck_of_text rfl rfl rfl (fun off k _ => rfl) ?_ hlen
        rw [htxt]
        exact text_ackHead hCmd _
      · -- `gethep` prints its text with the acknowledgement
        have htxt : valueText f.cmd s = helpText := by
          rw [valueText, hcase]
          exact if_neg hver
        have hval : ¬ (f.cmd.val > 0x0f && f.cmd.val < 0x18) = true := by
          rw [eq_gethep hget hcase hver]
          decide
        rw [if_neg hval]
        refine getAck_of_text rfl rfl rfl (V := s.ValidCmd) (fun off k hle => ?_) ?_ hlen
        · exact Buf.slice_write_before _ hle
        · rw [htxt] at hzero hlen ⊢
          exact text_print _ hzero hlen

/-! ## Set commands -/

/-- What a set command does once its handler has returned `RtnLen` and left the
state `s1`: the record is saved and the count acknowledged. -/
structure SetAck (c : Cmd) (RtnLen : UInt8) (s1 s' : Cam) : Prop where
  para : s'.para = s1.para
  flash : s'.flash = saveList s1.flash s1.para
  regs : s'.regs = s1.regs
  text : s'.text = []
  ParaLen : s'.ParaLen = 26
  reply : s'.reply = setReply c RtnLen

/-- The handlers are all of the common form. -/
theorem setCases_handler {c : Cmd} {handler : Stack → Option SetResult}
    {store : Buf Int 20 → SavePara → SavePara} (h : setCases c = some (handler, store)) :
    ∃ values effect, handler = proSet values effect := by
  cases c <;> simp only [setCases, Option.some.injEq, Prod.mk.injEq, reduceCtorEq] at h <;>
    exact ⟨_, _, h.1.symm⟩

/-- **A set command saves its record and acknowledges the count**, unless the scan
of its parameter writes through the null pointer. -/
theorem execFrame_set {f : Frame} (hset : f.cmd.isSet = true) (stk : Stack) (s : Cam) :
    (switchCmd f.cmd (f.stack stk)
        { s with ParaLen := UInt8.ofNat f.para.length } = none ∧
      execFrame f stk s = (.fault, { s with ParaLen := UInt8.ofNat f.para.length })) ∨
    ∃ RtnLen s1 s',
      switchCmd f.cmd (f.stack stk)
        { s with ParaLen := UInt8.ofNat f.para.length } = some (RtnLen, s1) ∧
      execFrame f stk s = (if f.cmd.resets then .reset else .returned, s') ∧
      SetAck f.cmd RtnLen s1 s' := by
  have hCmd := f.cmd.length_text
  have hend : endText.length = 2 := rfl
  have hzeros : ([0, 0] : List UInt8).length = 2 := rfl
  rw [execFrame, runCmd]
  cases hsw : switchCmd f.cmd (f.stack stk)
      { s with ParaLen := UInt8.ofNat f.para.length } with
  | none => exact Or.inl ⟨rfl, rfl⟩
  | some r =>
      obtain ⟨RtnLen, s1⟩ := r
      refine Or.inr ⟨RtnLen, s1, _, rfl, rfl, ?_⟩
      rw [ackBody, if_pos hset]
      have hbody : ((((ackHead f.cmd.text s1.ValidCmd).write 25 [0, 0]).write 27 endText)).slice
          25 2 = [0, 0] := by
        rw [Buf.slice_write_before _ (by omega), Buf.slice_write_eq _ hzeros (by omega)]
      constructor
      · rfl
      · rfl
      · rfl
      · refine cstr_of_slice (by simp) ?_
        have hone : (((ackHead f.cmd.text s1.ValidCmd).write 25 [0, 0]).write 27 endText).slice
            25 1 = [0] := by
          have htake := congrArg (List.take 1) hbody
          rwa [Buf.slice, List.take_take] at htake
        simpa [ackLength, Buf.slice_write_after] using hone
      · rfl
      · refine slice_ackFrame (n := 2) (V := s1.ValidCmd) (by omega) (fun off k hle => ?_) hbody ?_
        · rw [Buf.slice_write_before _ (by omega), Buf.slice_write_before _ hle]
        · exact Buf.slice_write_eq _ hend (by omega)

end NetCamera
