import NetCamera.Protocol.Ack

/-!
# NetCamera.Protocol.Grammar

What a message changes.

A message that is no frame changes nothing but `ParaLen`; a get command changes
nothing but the acknowledgement; a set command changes the field it names, and
saves the record.  `grammar_exact` puts this together with the grammar.
-/

namespace NetCamera

open CString

/-! ## The field a command names -/

/-- The record `q` with the field that the command names taken from `p`. -/
def Cmd.restore (p q : SavePara) : Cmd → SavePara
  | setmod => { q with mode := p.mode }
  | setcap => { q with cap := p.cap }
  | setipa => { q with ip0 := p.ip0, ip1 := p.ip1, ip2 := p.ip2, ip3 := p.ip3 }
  | setpot => { q with port := p.port }
  | setsiz => { q with size0 := p.size0, size1 := p.size1 }
  | setrat => { q with rate := p.rate }
  | setbrt => { q with bright := p.bright }
  | setcon => { q with contrast := p.contrast }
  | setexp => { q with exp := p.exp }
  | setpol => { q with pol := p.pol }
  | _ => q

/-- The command changes in the record only the field it names. -/
def Cmd.ChangesOnly (c : Cmd) (p q : SavePara) : Prop := c.restore p q = p

instance (c : Cmd) (p q : SavePara) : Decidable (c.ChangesOnly p q) := by
  unfold Cmd.ChangesOnly
  infer_instance

/-- The number of values a set command needs. -/
def Cmd.needs : Cmd → Nat
  | setipa => 4
  | setsiz => 2
  | _ => 1

/-- A parameter text that yields the values a command needs. -/
def Cmd.Yields (c : Cmd) (text : List UInt8) (iRtnData : Buf Int 8) : Prop :=
  ∃ n values, scanText text iRtnData 8 = some (n, values) ∧ c.needs ≤ n.toNat

/-! ## Set commands -/

/-- What the set cases store is the field named. -/
theorem changesOnly_store {c : Cmd} {handler : Stack → Option SetResult}
    {store : Buf Int 20 → SavePara → SavePara} (h : setCases c = some (handler, store))
    (v : Buf Int 20) (p : SavePara) : c.ChangesOnly p (store v p) := by
  cases c <;> simp only [setCases, Option.some.injEq, Prod.mk.injEq, reduceCtorEq] at h <;>
    rw [← h.2] <;> rfl

theorem changesOnly_switchCmd {c : Cmd} (hset : c.isSet = true) {stk : Stack} {s s1 : Cam}
    {RtnLen : UInt8} (h : switchCmd c stk s = some (RtnLen, s1)) :
    c.ChangesOnly s.SaveParaList s1.SaveParaList := by
  obtain ⟨⟨handler, store⟩, hcase⟩ := Option.isSome_iff_exists.mp ((setCases_isSome c).trans hset)
  rw [switchCmd, hcase] at h
  obtain ⟨r, -, hr⟩ := Option.map_eq_some_iff.mp h
  rw [← (Prod.mk.inj hr).2]
  exact changesOnly_store hcase _ _

/-- A handler whose parameter can be scanned returns. -/
theorem switchCmd_isSome {c : Cmd} (hset : c.isSet = true) {stk : Stack} (s : Cam)
    (h : (scanText stk.text stk.iRtnData 8).isSome = true) :
    ∃ RtnLen s1, switchCmd c stk s = some (RtnLen, s1) := by
  obtain ⟨⟨handler, store⟩, hcase⟩ := Option.isSome_iff_exists.mp ((setCases_isSome c).trans hset)
  obtain ⟨values, effect, rfl⟩ := setCases_handler hcase
  obtain ⟨r, hr⟩ := Option.isSome_iff_exists.mp h
  rw [switchCmd, hcase]
  simp only [proSet_eq, hr, Option.map_some]
  exact ⟨_, _, rfl⟩

/-! ## Get commands -/

/-- The record, the flash and the hardware are the same. -/
structure Untouched (s s' : Cam) : Prop where
  para : s'.para = s.para
  flash : s'.flash = s.flash
  regs : s'.regs = s.regs

theorem untouched_ackBody {c : Cmd} (hget : c.isSet = false) (RtnLen : UInt8) (End : List UInt8)
    (s : Cam) : Untouched s (ackBody c RtnLen End s) := by
  rw [ackBody, if_neg (by simp [hget])]
  split
  · exact ⟨rfl, rfl, rfl⟩
  · exact ⟨rfl, rfl, rfl⟩

theorem untouched_switchCmd {c : Cmd} (hget : c.isSet = false) (stk : Stack) (s : Cam) :
    ∃ RtnLen s1, switchCmd c stk s = some (RtnLen, s1) ∧ Untouched s s1 := by
  have hset : setCases c = none := by
    rw [← Option.isNone_iff_eq_none, ← Option.not_isSome, setCases_isSome, hget]
    rfl
  rw [switchCmd, hset]
  cases getCases s.SaveParaList c with
  | none => exact ⟨_, _, rfl, rfl, rfl, rfl⟩
  | some txt => exact ⟨_, _, rfl, rfl, rfl, rfl⟩

/-- A get command leaves record, flash and hardware alone, whatever the acknowledgement
buffer holds. -/
theorem untouched_runCmd {c : Cmd} (hget : c.isSet = false) (Cmd End : List UInt8) (stk : Stack)
    (s : Cam) : Untouched s (runCmd c Cmd End stk s).2 := by
  obtain ⟨RtnLen, s1, hswitch, hs1⟩ := untouched_switchCmd hget stk s
  have hack := untouched_ackBody hget RtnLen End { s1 with ValidCmd := ackHead Cmd s1.ValidCmd }
  rw [runCmd, hswitch]
  exact ⟨hack.para.trans hs1.para, hack.flash.trans hs1.flash, hack.regs.trans hs1.regs⟩

/-! ## The whole grammar -/

/-- **The grammar**: the switch is entered exactly with a buffer that starts with a
frame, and with its command, and `PollMessage` runs a command exactly where it is
entered; any other buffer leaves record, flash, hardware and acknowledgement as
they are; a get command leaves record, flash and hardware; and a set command that
finds the values it needs changes the field it names and saves the record. -/
theorem grammar_exact (recbuf : RecvBuf) (stk : Stack) (s : Cam) :
    ((switched recbuf).isSome = true ↔ ∃ f : Frame, f.bytes <+: recbuf.elems) ∧
    (PollMessage recbuf stk s = match switched recbuf with
      | some (c, ParaLen) =>
        runCmd c (recbuf.slice 18 7) (recbuf.slice (25 + ParaLen.toNat + 1) 2)
          { stk with Para := stk.Para.write 0 (recbuf.slice 25 ParaLen.toNat) }
          { s with ParaLen := ParaLen }
      | none => (.returned, { s with ParaLen := rejectLen recbuf s.ParaLen })) ∧
    (switched recbuf = none → ∃ ParaLen,
      PollMessage recbuf stk s = (.returned, { s with ParaLen := ParaLen })) ∧
    ∀ f : Frame, f.bytes <+: recbuf.elems →
      switched recbuf = some (f.cmd, UInt8.ofNat f.para.length) ∧
      (f.cmd.isSet = false →
        (PollMessage recbuf stk s).2.SaveParaList = s.SaveParaList ∧
        (PollMessage recbuf stk s).2.flash = s.flash ∧
        (PollMessage recbuf stk s).2.regs = s.regs) ∧
      (f.cmd.isSet = true → (f.stack stk).text = f.para → f.cmd.Yields f.para stk.iRtnData →
        (PollMessage recbuf stk s).1 ≠ .fault ∧
        f.cmd.ChangesOnly s.SaveParaList (PollMessage recbuf stk s).2.SaveParaList ∧
        flashRecord (PollMessage recbuf stk s).2.flash =
          (PollMessage recbuf stk s).2.SaveParaList) := by
  refine ⟨?_, PollMessage_switched recbuf stk s, fun hnone => ?_, fun f hf => ?_⟩
  · rw [switched_eq, Option.isSome_map, Option.isSome_iff_exists]
    exact exists_congr fun f => parseFrame_eq_some_iff
  · rw [switched_eq, Option.map_eq_none_iff] at hnone
    exact ⟨_, PollMessage_reject hnone stk s⟩
  · have hparse := parseFrame_eq_some_iff.mpr hf
    rw [PollMessage_frame hparse, switched_eq, hparse]
    refine ⟨rfl, fun hget => ?_, fun hset htext hyields => ?_⟩
    · have hun := untouched_runCmd hget f.cmd.text endText (f.stack stk)
        { s with ParaLen := UInt8.ofNat f.para.length }
      exact ⟨congrArg ParaRam.SaveParaList hun.para, hun.flash, hun.regs⟩
    · obtain ⟨n, values, hscan, -⟩ := hyields
      have hsome : (scanText (f.stack stk).text (f.stack stk).iRtnData 8).isSome = true := by
        rw [htext, Frame.stack_iRtnData, hscan]
        rfl
      rcases execFrame_set hset stk s with ⟨hnone, -⟩ | ⟨RtnLen, s1, s', hswitch, hexec, hack⟩
      · obtain ⟨RtnLen, s1, hswitch⟩ := switchCmd_isSome hset _ hsome
        rw [hswitch] at hnone
        cases hnone
      · rw [hexec]
        refine ⟨?_, ?_, ?_⟩
        · simp only
          split <;> nofun
        · have hrecord : s'.SaveParaList = s1.SaveParaList :=
            congrArg ParaRam.SaveParaList hack.para
          have hchanges := changesOnly_switchCmd hset hswitch
          rw [hrecord]
          exact hchanges
        · rw [hack.flash, flashRecord, loadList_saveList, Cam.SaveParaList, hack.para]

/-- `setrat:5` in front of zeros. -/
theorem grammar_exact_setrat : ∃ recbuf : RecvBuf, ∃ s : Cam,
    s.SaveParaList = DefaultList ∧ switched recbuf = some (.setrat, 1) ∧
    Cmd.setrat.ChangesOnly s.SaveParaList (PollMessage recbuf
      ⟨Buf.fill 20 0, [], Buf.fill 20 0, Buf.fill 8 0⟩ s).2.SaveParaList ∧
    (PollMessage recbuf ⟨Buf.fill 20 0, [], Buf.fill 20 0, Buf.fill 8 0⟩
      s).2.SaveParaList.rate = 5 := by
  have hfive : Cmd.setrat.Yields (ascii ['5']) (Buf.fill 8 0) :=
    ⟨1, (Buf.fill 8 0).write 0 [5], by decide, by decide⟩
  obtain ⟨hswitch, -, hset⟩ := (grammar_exact
      ((Buf.fill 2000 0).write 0 (Frame.bytes ⟨Buf.fill 4 0, .setrat, ascii ['5'], by decide,
        by decide, by decide⟩)) ⟨Buf.fill 20 0, [], Buf.fill 20 0, Buf.fill 8 0⟩
      ⟨⟨DefaultList, ⟨0, 0, 0⟩⟩, 0, Buf.fill 100 0, fun _ => NorFlash.blank, []⟩).2.2.2
    ⟨Buf.fill 4 0, .setrat, ascii ['5'], by decide, by decide, by decide⟩ (by decide +kernel)
  exact ⟨_, _, rfl, hswitch, (hset rfl (by decide) hfive).2.1, by decide +kernel⟩

end NetCamera
