import NetCamera.Protocol.Ack

/-!
# NetCamera.Protocol.Residue

What earlier commands leave in the local `Para` and what it does to later ones.

`PollMessage` copies the parameter over the start of `Para` without a
terminator, and the handlers read it as a string: they go on into what an
earlier call left behind.  `residue_free_iff` says for which buffers the result
does not depend on that: a set command is safe only if its parameter fills
`Para`, or has a comma for each of the eight passes of the scanner, so that the
scan ends inside it.  Every other set command reads past its parameter.
-/

namespace NetCamera

open CString

/-! ## Observations -/

/-- What can be observed of an execution of `PollMessage`. -/
structure Observation where
  outcome : Outcome
  SaveParaList : SavePara
  record : SavePara
  regs : List RegWrite
  reply : Option (List UInt8)
  deriving DecidableEq

/-- The observation of a result; there is a reply when the call returns. -/
def observe (r : Outcome × Cam) : Observation where
  outcome := r.1
  SaveParaList := r.2.SaveParaList
  record := flashRecord r.2.flash
  regs := r.2.regs
  reply := if r.1 = .returned then some r.2.reply else none

/-- The result on a buffer does not depend on the prior contents of `Para`. -/
def ResidueFree (recbuf : RecvBuf) (s : Cam) : Prop :=
  ∀ (above : List UInt8) (RtnValue : Buf Int 20) (iRtnData : Buf Int 8) (Para Para' : Buf UInt8 20),
    observe (PollMessage recbuf ⟨Para, above, RtnValue, iRtnData⟩ s) =
      observe (PollMessage recbuf ⟨Para', above, RtnValue, iRtnData⟩ s)

/-- A parameter on which the scan ends by itself: it fills `Para`, or it is a
list with a comma for each of the scanner's eight passes. -/
def Delimited (p : List UInt8) : Prop :=
  p.length = 20 ∨ chr '[' ∈ p ∧ 8 ≤ (behind (chr '[') p).count (chr ',')

instance (p : List UInt8) : Decidable (Delimited p) := by
  unfold Delimited
  infer_instance

/-! ## The text a handler scans -/

/-- A parameter copied into `Para` is followed by the old contents. -/
theorem text_Para_write {p : List UInt8} (hp : 0 ∉ p) (hlen : p.length ≤ 20) (stk : Stack) :
    Stack.text { stk with Para := stk.Para.write 0 p } =
      p ++ cstr (stk.Para.elems.drop p.length ++ stk.above) 0 := by
  rw [Stack.text, Stack.mem, Buf.elems_write _ (by omega), List.take_zero, List.nil_append,
    Nat.zero_add, List.append_assoc, cstr_append hp]

theorem Frame.text_stack (f : Frame) (stk : Stack) : (f.stack stk).text =
    f.para ++ cstr (stk.Para.elems.drop f.para.length ++ stk.above) 0 :=
  text_Para_write f.para_text f.para_le stk

/-- Over zeros the parameter is the whole text. -/
theorem text_of_zeros {p : List UInt8} (hp : 0 ∉ p) (hlen : p.length ≤ 19) (above : List UInt8)
    (RtnValue : Buf Int 20) (iRtnData : Buf Int 8) :
    Stack.text ⟨(Buf.fill 20 0).write 0 p, above, RtnValue, iRtnData⟩ = p := by
  have hsucc : 20 - p.length = (19 - p.length) + 1 := by omega
  have htext := text_Para_write hp (by omega) ⟨Buf.fill 20 0, above, RtnValue, iRtnData⟩
  rwa [Buf.elems_fill, List.drop_replicate, hsucc, List.replicate_succ, List.cons_append,
    cstr_zero_cons, List.append_nil] at htext

/-- The contents of `Para` that prolong a parameter by `r`, as far as there is
room; the rest of `r` lies above. -/
def residue (p r : List UInt8) : Buf UInt8 20 :=
  (Buf.fill 20 0).write p.length (r.take (20 - p.length))

theorem text_of_residue {p r : List UInt8} (hp : 0 ∉ p) (hlen : p.length ≤ 20) (hr : 0 ∉ r)
    (RtnValue : Buf Int 20) (iRtnData : Buf Int 8) :
    Stack.text ⟨(residue p r).write 0 p, r.drop (20 - p.length), RtnValue, iRtnData⟩ = p ++ r := by
  have hroom : p.length + (r.take (20 - p.length)).length ≤ 20 := by
    rw [List.length_take]
    omega
  have hplen : ((Buf.fill 20 (0 : UInt8)).elems.take p.length).length = p.length := by
    rw [Buf.elems_fill, List.take_replicate, List.length_replicate]
    omega
  have hdrop : (residue p r).elems.drop p.length = r.take (20 - p.length) ++
      List.replicate (20 - (p.length + (r.take (20 - p.length)).length)) 0 := by
    rw [residue, Buf.elems_write _ hroom, List.append_assoc, List.drop_append, hplen,
      List.drop_of_length_le (by omega), List.nil_append, Nat.sub_self, List.drop_zero,
      Buf.elems_fill, List.drop_replicate]
  have htext := text_Para_write hp hlen ⟨residue p r, r.drop (20 - p.length), RtnValue, iRtnData⟩
  rw [hdrop] at htext
  rw [htext]
  congr 1
  by_cases hfit : r.length ≤ 20 - p.length
  · -- all of `r` lies in `Para`; zeros or the end of memory follow
    rw [List.take_of_length_le hfit, List.drop_of_length_le hfit, List.append_nil,
      cstr_append hr]
    cases hk : 20 - (p.length + r.length) with
    | zero => simp [cstr]
    | succ k => simp [List.replicate_succ]
  · -- `r` fills `Para` and goes on above it
    have hfull : 20 - (p.length + (r.take (20 - p.length)).length) = 0 := by
      rw [List.length_take]
      omega
    rw [hfull, List.replicate_zero, List.append_nil, List.take_append_drop]
    have hall := cstr_append hr []
    rwa [List.append_nil, cstr_nil, List.append_nil] at hall

/-! ## Delimited parameters -/

variable {m : Nat}

/-- On a delimited list the scan does not read on. -/
theorem scanText_append {p : List UInt8} (hopen : chr '[' ∈ p)
    (hcount : 8 ≤ (behind (chr '[') p).count (chr ',')) (t : List UInt8) (pArray : Buf Int m) :
    scanText (p ++ t) pArray 8 = scanText p pArray 8 := by
  rw [scanText, scanText, if_pos (List.mem_append_left t hopen), if_pos hopen,
    behind_append_right hopen, scanStr_append hcount]

/-- Handlers agree on two stacks with the same scan and the same arrays. -/
theorem switchCmd_congr {c : Cmd} {stk stk' : Stack} (hRtn : stk.RtnValue = stk'.RtnValue)
    (hData : stk.iRtnData = stk'.iRtnData)
    (hscan : scanText stk.text stk.iRtnData 8 = scanText stk'.text stk.iRtnData 8) (s : Cam) :
    switchCmd c stk s = switchCmd c stk' s := by
  rw [switchCmd, switchCmd]
  cases hc : setCases c with
  | none => rfl
  | some r =>
      obtain ⟨handler, store⟩ := r
      obtain ⟨values, effect, rfl⟩ := setCases_handler hc
      simp only [proSet_eq, ← hData, ← hRtn, hscan]

/-- **Delimited parameters hide the residue.** -/
theorem execFrame_delimited {f : Frame} (h : f.cmd.isSet = true → Delimited f.para)
    (stk stk' : Stack) (habove : stk.above = stk'.above) (hRtn : stk.RtnValue = stk'.RtnValue)
    (hData : stk.iRtnData = stk'.iRtnData) (s : Cam) : execFrame f stk s = execFrame f stk' s := by
  have hswitch : ∀ s, switchCmd f.cmd (f.stack stk) s = switchCmd f.cmd (f.stack stk') s := by
    intro s
    cases hset : f.cmd.isSet with
    | false =>
        have hnone : setCases f.cmd = none := by
          rw [← Option.isNone_iff_eq_none, ← Option.not_isSome, setCases_isSome, hset]
          rfl
        rw [switchCmd, switchCmd, hnone]
    | true =>
        rcases h hset with hfull | ⟨hopen, hcount⟩
        · -- nothing of the old contents is left
          have hwrite : ∀ b : Buf UInt8 20, (b.write 0 f.para).elems = f.para := by
            intro b
            rw [Buf.elems_write _ (by omega), hfull, List.take_zero, List.nil_append,
              List.drop_of_length_le (by rw [Buf.length_elems]), List.append_nil]
          refine switchCmd_congr ?_ ?_ ?_ s
          · exact hRtn
          · exact hData
          · simp only [Frame.stack, Stack.text, Stack.mem, hwrite, habove]
        · refine switchCmd_congr ?_ ?_ ?_ s
          · exact hRtn
          · exact hData
          · rw [f.text_stack, f.text_stack, scanText_append hopen hcount,
              scanText_append hopen hcount]
  rw [execFrame, execFrame, runCmd, runCmd, hswitch]

/-! ## Parameters that read on -/

/-- Behind a closed element a comma starts another one, as long as passes are left. -/
theorem runsOff_comma {p : List UInt8} (hopen : chr '[' ∈ p)
    (hclose : chr ']' ∈ lastPart (chr ',') (behind (chr '[') p))
    (hcount : (behind (chr '[') p).count (chr ',') < 7) :
    RunsOff 8 (p ++ [chr ',']) ∧ ¬ RunsOff 8 p := by
  have hone : List.count (chr ',') [chr ','] = 1 := by decide
  refine ⟨⟨List.mem_append_left _ hopen, ?_, ?_⟩, fun h => h.2.2 hclose⟩
  · rw [behind_append_right hopen, List.count_append]
    omega
  · rw [behind_append_right hopen, lastPart_append]
    decide

/-- A closing bracket ends the open last element. -/
theorem runsOff_close {p : List UInt8} (hopen : chr '[' ∈ p)
    (hclose : chr ']' ∉ lastPart (chr ',') (behind (chr '[') p))
    (hcount : (behind (chr '[') p).count (chr ',') < 8) :
    RunsOff 8 p ∧ ¬ RunsOff 8 (p ++ [chr ']']) := by
  have hnot : chr ',' ∉ [chr ']'] := by decide
  refine ⟨⟨hopen, hcount, hclose⟩, fun h => h.2.2 ?_⟩
  rw [behind_append_right hopen, lastPart_append_of_not_mem hnot]
  exact List.mem_append_right _ (List.mem_singleton.mpr rfl)

/-- An opening bracket turns a number into an unfinished list. -/
theorem runsOff_open {p : List UInt8} (hopen : chr '[' ∉ p) :
    RunsOff 8 (p ++ [chr '[']) ∧ ¬ RunsOff 8 p := by
  refine ⟨⟨by simp, ?_, ?_⟩, fun h => hopen h.1⟩ <;>
    · rw [behind_append hopen]
      decide

/-- A last element that becomes too long, with the passes used up behind it, makes the
count of a closed list zero. -/
theorem scanText_overrun {p : List UInt8} (hopen : chr '[' ∈ p)
    (hclose : chr ']' ∈ lastPart (chr ',') (behind (chr '[') p))
    (hcount : (behind (chr '[') p).count (chr ',') = 7) (hlen : p.length ≤ 19)
    (pArray : Buf Int m) :
    ∃ c pArray' pArray'', c ≠ 0 ∧ scanText p pArray 8 = some (c, pArray') ∧
      scanText (p ++ (List.replicate 10 (chr 'x') ++ [chr ','])) pArray 8 =
        some (0, pArray'') := by
  have hblen := length_behind hopen
  have hx : chr ',' ∉ List.replicate 10 (chr 'x') := by decide
  have hcountx : (behind (chr '[') p ++ List.replicate 10 (chr 'x')).count (chr ',') = 7 := by
    rw [List.count_append, List.count_eq_zero_of_not_mem hx]
    omega
  have hlong : 10 ≤ (lastPart (chr ',')
      (behind (chr '[') p ++ List.replicate 10 (chr 'x'))).length := by
    rw [lastPart_append_of_not_mem hx, List.length_append, List.length_replicate]
    omega
  obtain ⟨pArray'', hover⟩ := scanStr_overrun (by omega : 0 + (7 + 1) ≤ 8) hcountx hlong pArray
  cases hres : scanStr 8 8 (behind (chr '[') p) 0 pArray with
  | none => exact absurd hclose ((scanStr_eq_none_iff (by omega)).mp hres).2
  | some res =>
      obtain ⟨c, pArray'⟩ := res
      -- fewer than ten bytes an element: at least one of the eight was counted
      obtain ⟨-, hup, hsum⟩ := scanStr_count (by omega) (by omega) hres
      refine ⟨UInt8.ofNat c, pArray', pArray'', ?_, ?_, ?_⟩
      · intro hzero
        have hnat := congrArg UInt8.toNat hzero
        rw [UInt8.toNat_ofNat'] at hnat
        have h0 : (0 : UInt8).toNat = 0 := rfl
        omega
      · rw [scanText, if_pos hopen, hres]
        rfl
      · rw [scanText, if_pos (List.mem_append_left _ hopen), behind_append_right hopen,
          ← List.append_assoc, hover]
        rfl

/-- **An undelimited parameter can be prolonged to another result**: some `r`
behind it turns a scan that ends into one that writes through the null pointer,
or the other way round, or a count of at least one into zero. -/
theorem exists_prolongation {p : List UInt8} (hlen : p.length ≤ 19) (hp : ¬ Delimited p) :
    ∃ r : List UInt8, 0 ∉ r ∧
      ((RunsOff 8 (p ++ r) ↔ ¬ RunsOff 8 p) ∨
        ∀ pArray : Buf Int m, ∃ c pArray' pArray'', c ≠ 0 ∧
          scanText p pArray 8 = some (c, pArray') ∧
          scanText (p ++ r) pArray 8 = some (0, pArray'')) := by
  by_cases hopen : chr '[' ∈ p
  · have hcount : (behind (chr '[') p).count (chr ',') < 8 := by
      simp only [Delimited, not_or, not_and] at hp
      have := hp.2 hopen
      omega
    by_cases hclose : chr ']' ∈ lastPart (chr ',') (behind (chr '[') p)
    · by_cases hseven : (behind (chr '[') p).count (chr ',') < 7
      · have h := runsOff_comma hopen hclose hseven
        exact ⟨[chr ','], by decide, Or.inl (iff_of_true h.1 h.2)⟩
      · exact ⟨List.replicate 10 (chr 'x') ++ [chr ','], by decide,
          Or.inr (scanText_overrun hopen hclose (by omega) hlen)⟩
    · have h := runsOff_close hopen hclose hcount
      exact ⟨[chr ']'], by decide, Or.inl (iff_of_false h.2 (not_not_intro h.1))⟩
  · have h := runsOff_open hopen
    exact ⟨[chr '['], by decide, Or.inl (iff_of_true h.1 h.2)⟩

/-! ## Telling the results apart -/

/-- What a set case makes of a scan. -/
theorem switchCmd_of_scan {c : Cmd} {values : UInt8 → Buf Int 8 → List Int}
    {effect : Buf Int 8 → List RegWrite} {store : Buf Int 20 → SavePara → SavePara}
    (hc : setCases c = some (proSet values effect, store)) {stk : Stack} {n : UInt8}
    {iRtnData : Buf Int 8} (hscan : scanText stk.text stk.iRtnData 8 = some (n, iRtnData))
    (s : Cam) : switchCmd c stk s = some (n,
      { s.setPara (store (stk.RtnValue.write 0 (values n iRtnData)) s.SaveParaList) with
        regs := s.regs ++ effect iRtnData }) := by
  simp only [switchCmd, hc, proSet_eq, hscan, Option.map_some]

/-- A set command writes through the null pointer exactly when its scan does. -/
theorem execFrame_fault_iff {f : Frame} (hset : f.cmd.isSet = true) (stk : Stack) (s : Cam) :
    (execFrame f stk s).1 = .fault ↔
      RunsOff 8 (f.stack stk).text := by
  have hsome : (setCases f.cmd).isSome = true := by rw [setCases_isSome, hset]
  obtain ⟨⟨handler, store⟩, hc⟩ := Option.isSome_iff_exists.mp hsome
  obtain ⟨values, effect, rfl⟩ := setCases_handler hc
  rw [← scanText_eq_none_iff stk.iRtnData]
  cases hscan : scanText (f.stack stk).text stk.iRtnData 8 with
  | none =>
      refine ⟨fun _ => rfl, fun _ => ?_⟩
      simp only [execFrame, runCmd, switchCmd, hc, proSet_eq, Frame.stack_iRtnData, hscan,
        Option.map_none]
  | some r =>
      obtain ⟨n, iRtnData⟩ := r
      rw [execFrame, runCmd, switchCmd_of_scan hc hscan]
      refine ⟨fun h => ?_, fun h => by cases h⟩
      simp only at h
      split at h <;> cases h

/-- A set command runs into the null pointer with its scan and has changed nothing, or ends
in an acknowledgement. -/
theorem execFrame_set_cases {f : Frame} (hset : f.cmd.isSet = true) (stk : Stack) (s : Cam) :
    (RunsOff 8 (f.stack stk).text ∧
      execFrame f stk s = (.fault, { s with ParaLen := UInt8.ofNat f.para.length })) ∨
    ¬ RunsOff 8 (f.stack stk).text ∧ ∃ RtnLen s1 s',
      execFrame f stk s = (if f.cmd.resets then .reset else .returned, s') ∧
      SetAck f.cmd RtnLen s1 s' := by
  have hfault := execFrame_fault_iff hset stk s
  rcases execFrame_set hset stk s with ⟨-, hexec⟩ | ⟨RtnLen, s1, s', -, hexec, hack⟩
  · exact Or.inl ⟨hfault.mp (by rw [hexec]), hexec⟩
  · refine Or.inr ⟨fun hoff => ?_, RtnLen, s1, s', hexec, hack⟩
    have hout := hfault.mpr hoff
    rw [hexec] at hout
    simp only at hout
    split at hout <;> cases hout

/-- A set command whose scan writes through the null pointer stops before it changes anything. -/
theorem execFrame_of_runsOff {f : Frame} (hset : f.cmd.isSet = true) {stk : Stack}
    (h : RunsOff 8 (f.stack stk).text) (s : Cam) :
    execFrame f stk s = (.fault, { s with ParaLen := UInt8.ofNat f.para.length }) :=
  ((execFrame_set_cases hset stk s).resolve_right fun hscan => hscan.1 h).2

/-- The execution of a set command whose scan ends. -/
theorem execFrame_of_scan {f : Frame} (hset : f.cmd.isSet = true)
    {values : UInt8 → Buf Int 8 → List Int} {effect : Buf Int 8 → List RegWrite}
    {store : Buf Int 20 → SavePara → SavePara}
    (hc : setCases f.cmd = some (proSet values effect, store)) (stk : Stack) {n : UInt8}
    {iRtnData : Buf Int 8}
    (hscan : scanText (f.stack stk).text stk.iRtnData 8 = some (n, iRtnData)) (s : Cam) :
    ∃ s', execFrame f stk s = (if f.cmd.resets then .reset else .returned, s') ∧
      SetAck f.cmd n { s.setPara (store (stk.RtnValue.write 0 (values n iRtnData)) s.SaveParaList)
        with ParaLen := UInt8.ofNat f.para.length, regs := s.regs ++ effect iRtnData } s' := by
  have hsw := switchCmd_of_scan hc hscan { s with ParaLen := UInt8.ofNat f.para.length }
  rcases execFrame_set hset stk s with ⟨hnone, -⟩ | ⟨RtnLen, s1, s', hsome, hex, hack⟩
  · rw [hnone] at hsw
    cases hsw
  · rw [hsome] at hsw
    obtain ⟨rfl, rfl⟩ := Prod.mk.inj (Option.some.inj hsw)
    exact ⟨s', hex, hack⟩

/-- The first element of an array after a write to its start. -/
theorem intAt_write_cons {n : Nat} (b : Buf Int (n + 1)) (v : Int) {vs : List Int}
    (h : vs.length ≤ n) : intAt (b.write 0 (v :: vs)) 0 = v := by
  rw [intAt, Buf.elems_write _ (by rw [List.length_cons]; omega), List.take_zero]
  rfl

theorem intAt_fill (n : Nat) (v : Int) : intAt ((Buf.fill (n + 1) v).write 0 []) 0 = v := by
  rw [intAt, Buf.elems_write _ (by simp), List.take_zero, Buf.elems_fill]
  simp [List.replicate_succ]

theorem u8_ofInt_ne (v : Int) : UInt8.ofInt v ≠ UInt8.ofInt (v + 1) := by
  intro h
  have hnat := congrArg UInt8.toNat h
  simp only [UInt8.ofInt, UInt8.toNat_ofNat'] at hnat
  omega

theorem u16_ofInt_ne (v : Int) : UInt16.ofInt v ≠ UInt16.ofInt (v + 1) := by
  intro h
  have hnat := congrArg UInt16.toNat h
  simp only [UInt16.ofInt, UInt16.toNat_ofNat'] at hnat
  omega

/-- The first `n` elements start with element 0. -/
theorem countValues_eq_cons {n : UInt8} (hn : n ≠ 0) (iRtnData : Buf Int 8) :
    ∃ vs, countValues n iRtnData = intAt iRtnData 0 :: vs ∧ vs.length ≤ 19 := by
  obtain ⟨elems, hlen⟩ := iRtnData
  match elems, hlen with
  | v :: vs, hlen =>
      have hpos : n.toNat ≠ 0 := fun h => hn (UInt8.toNat_inj.mp h)
      obtain ⟨k, hk⟩ := Nat.exists_eq_succ_of_ne_zero hpos
      refine ⟨vs.take k, ?_, ?_⟩
      · simp [countValues, intAt, hk]
      · simp only [List.length_cons] at hlen
        rw [List.length_take]
        omega

/-- Whether the commands that end in a reset counted anything shows in the record:
with nothing counted they store what stood in `RtnValue`. -/
theorem resets_store {c : Cmd} (h : c.resets = true) :
    ∃ values effect store, setCases c = some (proSet values effect, store) ∧
      ∀ n ≠ 0, ∀ iRtnData iRtnData' p, ∃ RtnValue : Buf Int 20,
        store (RtnValue.write 0 (values n iRtnData)) p ≠
          store (RtnValue.write 0 (values 0 iRtnData')) p := by
  have hresets : c = .setipa ∨ c = .setsiz := by
    cases c <;> first | exact Or.inl rfl | exact Or.inr rfl | cases h
  rcases hresets with rfl | rfl
  · refine ⟨_, _, _, rfl, fun n hn iRtnData iRtnData' p => ?_⟩
    obtain ⟨vs, hvs, hlen⟩ := countValues_eq_cons hn iRtnData
    refine ⟨Buf.fill 20 (intAt iRtnData 0 + 1), fun heq => ?_⟩
    have hip := congrArg SavePara.ip0 heq
    have hnil : countValues 0 iRtnData' = [] := rfl
    simp only [hvs, hnil] at hip
    rw [intAt_write_cons _ _ hlen, intAt_fill] at hip
    exact u8_ofInt_ne _ hip
  · refine ⟨_, _, _, rfl, fun n hn iRtnData iRtnData' p => ?_⟩
    obtain ⟨vs, hvs, hlen⟩ := countValues_eq_cons hn (iRtnData.write 0
      [(fitSize (intAt iRtnData 0) (intAt iRtnData 1)).1,
        (fitSize (intAt iRtnData 0) (intAt iRtnData 1)).2])
    refine ⟨Buf.fill 20 ((fitSize (intAt iRtnData 0) (intAt iRtnData 1)).1 + 1), fun heq => ?_⟩
    have hsize := congrArg SavePara.size0 heq
    have hnil : ∀ b : Buf Int 8, countValues 0 b = [] := fun _ => rfl
    simp only [hvs, hnil] at hsize
    rw [intAt_write_cons _ _ hlen, intAt_fill, intAt_write_cons _ _ (by simp)] at hsize
    exact u16_ofInt_ne _ hsize

theorem setReply_inj {c : Cmd} {n k : UInt8} (h : setReply c n = setReply c k) : n = k := by
  simp only [setReply, ackFrame, List.append_assoc] at h
  obtain ⟨hlen, -⟩ := List.append_inj (List.append_cancel_left h) rfl
  simp only [List.cons.injEq, and_true, true_and] at hlen
  have hnat := congrArg UInt8.toNat hlen
  simp only [UInt8.toNat_add] at hnat
  have h15 : (15 : UInt8).toNat = 15 := rfl
  have h1 : (1 : UInt8).toNat = 1 := rfl
  have hn := n.toNat_lt
  have hk := k.toNat_lt
  apply UInt8.toNat_inj.mp
  omega

section ne

variable {f : Frame} {stk stk' : Stack} {n k : UInt8} {arr arr' : Buf Int 8}

/-- A fault shows. -/
theorem observe_ne_of_runsOff (hset : f.cmd.isSet = true)
    (h : RunsOff 8 (f.stack stk).text ↔ ¬ RunsOff 8 (f.stack stk').text) (s : Cam) :
    observe (execFrame f stk s) ≠ observe (execFrame f stk' s) := by
  intro heq
  have hout : (execFrame f stk s).1 = (execFrame f stk' s).1 := congrArg Observation.outcome heq
  have hfault := execFrame_fault_iff hset stk s
  rw [hout, execFrame_fault_iff hset stk' s] at hfault
  exact iff_not_self (hfault.trans h)

/-- The count of a command that does not reset shows in the acknowledgement. -/
theorem observe_ne_of_count (hset : f.cmd.isSet = true) (hreset : f.cmd.resets = false)
    (hscan : scanText (f.stack stk).text stk.iRtnData 8 = some (n, arr))
    (hscan' : scanText (f.stack stk').text stk'.iRtnData 8 = some (k, arr')) (hne : n ≠ k)
    (s : Cam) : observe (execFrame f stk s) ≠ observe (execFrame f stk' s) := by
  have hsome : (setCases f.cmd).isSome = true := by rw [setCases_isSome, hset]
  obtain ⟨⟨handler, store⟩, hcase⟩ := Option.isSome_iff_exists.mp hsome
  obtain ⟨values, effect, rfl⟩ := setCases_handler hcase
  obtain ⟨s1, hex, hack⟩ := execFrame_of_scan hset hcase stk hscan s
  obtain ⟨s1', hex', hack'⟩ := execFrame_of_scan hset hcase stk' hscan' s
  intro heq
  rw [hex, hex'] at heq
  have hreply := congrArg Observation.reply heq
  simp only [observe, hreset, Bool.false_eq_true, if_false, if_true, hack.reply, hack'.reply,
    Option.some.injEq] at hreply
  exact hne (setReply_inj hreply)

/-- What is stored shows in the record. -/
theorem observe_ne_of_store (hset : f.cmd.isSet = true)
    {values : UInt8 → Buf Int 8 → List Int} {effect : Buf Int 8 → List RegWrite}
    {store : Buf Int 20 → SavePara → SavePara}
    (hcase : setCases f.cmd = some (proSet values effect, store))
    (hscan : scanText (f.stack stk).text stk.iRtnData 8 = some (n, arr))
    (hscan' : scanText (f.stack stk').text stk'.iRtnData 8 = some (k, arr')) {s : Cam}
    (hne : store (stk.RtnValue.write 0 (values n arr)) s.SaveParaList ≠
      store (stk'.RtnValue.write 0 (values k arr')) s.SaveParaList) :
    observe (execFrame f stk s) ≠ observe (execFrame f stk' s) := by
  obtain ⟨s1, hex, hack⟩ := execFrame_of_scan hset hcase stk hscan s
  obtain ⟨s1', hex', hack'⟩ := execFrame_of_scan hset hcase stk' hscan' s
  intro heq
  rw [hex, hex'] at heq
  have hpara := congrArg Observation.SaveParaList heq
  simp only [observe, Cam.SaveParaList, hack.para, hack'.para] at hpara
  exact hne hpara

end ne

/-- **An undelimited parameter shows the residue.** -/
theorem execFrame_residue {f : Frame} (hset : f.cmd.isSet = true) (hp : ¬ Delimited f.para)
    (s : Cam) : ∃ above RtnValue iRtnData Para Para',
      observe (execFrame f ⟨Para, above, RtnValue, iRtnData⟩ s) ≠
        observe (execFrame f ⟨Para', above, RtnValue, iRtnData⟩ s) := by
  have hlen : f.para.length ≤ 19 := by
    have hle := f.para_le
    simp only [Delimited, not_or] at hp
    omega
  obtain ⟨r, hr, hres⟩ := exists_prolongation (m := 8) hlen hp
  -- one execution over `r`, one over zeros
  have htext : ∀ RtnValue iRtnData, (f.stack ⟨residue f.para r, r.drop (20 - f.para.length),
      RtnValue, iRtnData⟩).text = f.para ++ r := text_of_residue f.para_text f.para_le hr
  have htext0 : ∀ RtnValue iRtnData, (f.stack ⟨Buf.fill 20 0, r.drop (20 - f.para.length),
      RtnValue, iRtnData⟩).text = f.para := text_of_zeros f.para_text hlen _
  rcases hres with hruns | hcount
  · refine ⟨r.drop (20 - f.para.length), Buf.fill 20 0, Buf.fill 8 0, residue f.para r,
      Buf.fill 20 0, observe_ne_of_runsOff hset ?_ s⟩
    rw [htext, htext0]
    exact hruns
  · obtain ⟨c, arr, arr0, hc, hscan, hscan0⟩ := hcount (Buf.fill 8 0)
    cases hreset : f.cmd.resets with
    | false =>
        exact ⟨r.drop (20 - f.para.length), Buf.fill 20 0, Buf.fill 8 0, Buf.fill 20 0,
          residue f.para r, observe_ne_of_count hset hreset ((htext0 _ _).symm ▸ hscan)
            ((htext _ _).symm ▸ hscan0) hc s⟩
    | true =>
        obtain ⟨values, effect, store, hcase, hstore⟩ := resets_store hreset
        obtain ⟨RtnValue, hne⟩ := hstore c hc arr arr0 s.SaveParaList
        exact ⟨r.drop (20 - f.para.length), RtnValue, Buf.fill 8 0, Buf.fill 20 0,
          residue f.para r, observe_ne_of_store hset hcase ((htext0 _ _).symm ▸ hscan)
            ((htext _ _).symm ▸ hscan0) hne⟩

/-- **Residue**: a buffer is executed independently of what earlier calls left in
`Para` exactly when it is no set command, or its parameter is delimited. -/
theorem residue_free_iff (recbuf : RecvBuf) (s : Cam) :
    ResidueFree recbuf s ↔
      ∀ f, parseFrame recbuf = some f → f.cmd.isSet = true → Delimited f.para := by
  constructor
  · intro hfree f hf hset
    refine Classical.byContradiction fun hp => ?_
    obtain ⟨above, RtnValue, iRtnData, Para, Para', hne⟩ := execFrame_residue hset hp s
    refine hne ?_
    have heq := hfree above RtnValue iRtnData Para Para'
    rwa [PollMessage_frame hf, PollMessage_frame hf] at heq
  · intro h above RtnValue iRtnData Para Para'
    cases hf : parseFrame recbuf with
    | none => rw [PollMessage_reject hf, PollMessage_reject hf]
    | some f =>
        rw [PollMessage_frame hf, PollMessage_frame hf]
        rw [execFrame_delimited (h f hf) ⟨Para, above, RtnValue, iRtnData⟩
          ⟨Para', above, RtnValue, iRtnData⟩ rfl rfl rfl]

/-- `setrat:5`, as received. -/
def setrat5 : RecvBuf := (Buf.fill 2000 0).write 0
  (startText ++ [0, 0, 0, 0] ++ [0, 0, 0, 0] ++ headText ++ Cmd.text .setrat ++ [chr '5', 0] ++
    endText)

/-- A digit left in `Para` behind the `5` makes the rate 57. -/
theorem residue_setrat5 : ¬ ∀ (recbuf : RecvBuf) (s : Cam), ResidueFree recbuf s := by
  intro h
  have hpair := h setrat5 ⟨⟨DefaultList, ⟨0, 0, 0⟩⟩, 0, Buf.fill 100 0, fun _ => NorFlash.blank, []⟩
    [] (Buf.fill 20 0) (Buf.fill 8 0) (Buf.fill 20 0) ((Buf.fill 20 0).write 1 [chr '7'])
  have hrate := congrArg (fun o => o.SaveParaList.rate) hpair
  revert hrate
  decide +kernel

end NetCamera
