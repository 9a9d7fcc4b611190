import Mathlib.Tactic.MkIffOfInductiveProp
import NetCamera.Boot
import NetCamera.Server.SetGet

/-!
# NetCamera.Server.Tuning

Brightness, contrast and exposure across a reboot.

The set commands write to the LED's timer and to the sensor, and save a record; a
boot writes from the record.  `Cells` are the places both write to.  After a
sequence of set commands each place holds what the last command for it wrote, and
each field what the last command for it stored (`foldl_last`), so that
`reboot_same_iff` compares the two by the last values alone.
-/

namespace NetCamera

open CString Run

/-! ## The cells -/

/-- The last values written: to the register 0x09 of the sensor, to the address register
of its driver, to the driver's variables, and to the LED's timer. -/
structure Cells where
  R0x09 : UInt16
  address : UInt16
  var : UInt16 → UInt16
  CCR4 : UInt32

namespace Cells

/-- A variable of the driver is written through the registers 0xC6, its address, and
0xC8, its value. -/
def write (c : Cells) : RegWrite → Cells
  | .Page_16bit_WR_Reg page reg data =>
    if page = 0 ∧ reg = 0x09 then { c with R0x09 := data }
    else if page = 1 ∧ reg = 0xC6 then { c with address := data }
    else if page = 1 ∧ reg = 0xC8 then
      { c with var := fun a => if a = c.address then data else c.var a }
    else c
  | .TIM_SetTIM3Compare4 compare => { c with CCR4 := compare }

def writes (c : Cells) (ws : List RegWrite) : Cells := ws.foldl write c

theorem writes_cons (c : Cells) (w : RegWrite) (ws : List RegWrite) :
    c.writes (w :: ws) = (c.write w).writes ws := rfl

theorem writes_append (c : Cells) (ws vs : List RegWrite) :
    c.writes (ws ++ vs) = (c.writes ws).writes vs := List.foldl_append

/-- Exposure, contrast and brightness are the same. -/
@[mk_iff]
structure Agree (c d : Cells) : Prop where
  R0x09 : c.R0x09 = d.R0x09
  A102 : c.var 0xA102 = d.var 0xA102
  A743 : c.var 0xA743 = d.var 0xA743
  A744 : c.var 0xA744 = d.var 0xA744
  CCR4 : c.CCR4 = d.CCR4

end Cells

/-! ## The boot sequence -/

/-- No write of the list goes to the timer, or to the variable `a`; `address` is the
content of the address register where it is known. -/
def misses (a : UInt16) : Option UInt16 → List RegWrite → Bool
  | _, [] => true
  | address, .Page_16bit_WR_Reg page reg data :: ws =>
    if page = 0 ∧ reg = 0x09 then misses a address ws
    else if page = 1 ∧ reg = 0xC6 then misses a (some data) ws
    else if page = 1 ∧ reg = 0xC8 then address.any (a != ·) && misses a address ws
    else misses a address ws
  | _, .TIM_SetTIM3Compare4 _ :: _ => false

theorem var_of_misses {a : UInt16} {ws : List RegWrite} {address : Option UInt16} {c : Cells}
    (haddress : ∀ x, address = some x → c.address = x) (h : misses a address ws = true) :
    (c.writes ws).var a = c.var a ∧ (c.writes ws).CCR4 = c.CCR4 := by
  induction ws generalizing address c with
  | nil => exact ⟨rfl, rfl⟩
  | cons w ws ih =>
      cases w with
      | TIM_SetTIM3Compare4 compare => cases h
      | Page_16bit_WR_Reg page reg data =>
          unfold misses at h
          rw [Cells.writes_cons, Cells.write]
          split at h
          · next hreg =>
            rw [if_pos hreg]
            exact ih haddress h
          · next hreg =>
            rw [if_neg hreg]
            split at h
            · next hC6 =>
              rw [if_pos hC6]
              exact ih (fun x hx => Option.some.inj hx) h
            · next hC6 =>
              rw [if_neg hC6]
              split at h
              · next hC8 =>
                obtain ⟨hne, hrest⟩ := Bool.and_eq_true_iff.mp h
                obtain ⟨x, hx, hax⟩ := (Option.any_eq_true _ _).mp hne
                obtain ⟨hvar, hCCR4⟩ := ih (c := { c with
                  var := fun b => if b = c.address then data else c.var b }) haddress hrest
                rw [if_pos hC8]
                refine ⟨hvar.trans (if_neg ?_), hCCR4⟩
                rw [haddress x hx]
                simpa using hax
              · next hC8 =>
                rw [if_neg hC8]
                exact ih haddress h

set_option maxRecDepth 20000 in
/-- The tables set the exposure mode of no image. -/
theorem misses_configTables (p : SavePara) : misses 0xA102 none (configTables p) = true := rfl

/-- What `MT9D111_Jpeg_Config` leaves. -/
theorem cells_MT9D111_Jpeg_Config (c : Cells) (p : SavePara) :
    (c.writes (MT9D111_Jpeg_Config p)).R0x09 = UInt16.ofNat (p.exp.toNat * 13) ∧
    (c.writes (MT9D111_Jpeg_Config p)).var 0xA102 = c.var 0xA102 ∧
    (c.writes (MT9D111_Jpeg_Config p)).var 0xA743 = 3 ∧
    (c.writes (MT9D111_Jpeg_Config p)).var 0xA744 = 3 ∧
    (c.writes (MT9D111_Jpeg_Config p)).CCR4 = c.CCR4 := by
  obtain ⟨hvar, hCCR4⟩ := var_of_misses (c := c) (fun x hx => by cases hx) (misses_configTables p)
  rw [MT9D111_Jpeg_Config, Cells.writes_append]
  generalize c.writes (configTables p) = t at hvar hCCR4 ⊢
  rw [← hvar, ← hCCR4]
  simp [Cells.writes, Cells.write]

/-- The cells after a boot, from what the reset leaves. -/
theorem cells_bootWrites (init : Cells) (f : Flash) :
    (init.writes (bootWrites f)).R0x09 = UInt16.ofNat ((effective f).exp.toNat * 13) ∧
    (init.writes (bootWrites f)).var 0xA102 = init.var 0xA102 ∧
    (init.writes (bootWrites f)).var 0xA743 = 3 ∧
    (init.writes (bootWrites f)).var 0xA744 = 3 ∧
    (init.writes (bootWrites f)).CCR4 = startLight (flashRecord f).bright := by
  have heffective : flashRecord (bootList f).2 = effective f := by
    rw [flashRecord, loadList_bootList, effective]
  have hwrites : init.writes (bootWrites f) =
      { init with CCR4 := startLight (flashRecord f).bright }.writes
        (MT9D111_Jpeg_Config (effective f)) := by
    rw [bootWrites, heffective, Cells.writes_cons, Cells.writes_append]
    exact congrArg (fun c => Cells.writes c (MT9D111_Jpeg_Config (effective f))) rfl
  rw [hwrites]
  exact cells_MT9D111_Jpeg_Config _ _

/-! ## The commands -/

/-- The number a frame hands to its handler, when the handler returns. -/
def Frame.value (f : Frame) (stk : Stack) : Option Int :=
  (scanText (f.stack stk).text stk.iRtnData 8).map fun r => intAt r.2 0

/-- What a set command of brightness, contrast or exposure sets. -/
def Command.setting : Command → Option (Scalar × Int)
  | exec f stk =>
    match f.cmd with
    | .setbrt => (f.value stk).map fun v => (.bright, v)
    | .setcon => (f.value stk).map fun v => (.contrast, v)
    | .setexp => (f.value stk).map fun v => (.exp, v)
    | _ => none
  | reboot => none

/-- The settings of a run, in order. -/
def settings (es : List Event) : List (Scalar × Int) := (executed es).filterMap Command.setting

/-- The event executes at most a set command of brightness, contrast or exposure, with a
value in 0..100. -/
def Tuning (e : Event) : Prop :=
  ∀ c ∈ e.commands, ∃ x, c.setting = some x ∧ 0 ≤ x.2 ∧ x.2 ≤ 100

instance (e : Event) : Decidable (Tuning e) :=
  decidable_of_iff
    (∀ c ∈ e.commands, c.setting.any (fun x => decide (0 ≤ x.2 ∧ x.2 ≤ 100)) = true)
    (by simp [Tuning, Option.any_eq_true])

theorem setting_eq_some {f : Frame} {stk : Stack} {x : Scalar × Int}
    (h : (Command.exec f stk).setting = some x) :
    f.cmd = x.1.set ∧ f.value stk = some x.2 := by
  simp only [Command.setting] at h
  split at h
  case h_4 => cases h
  all_goals
    next hcmd =>
      obtain ⟨v, hv, rfl⟩ := Option.map_eq_some_iff.mp h
      exact ⟨hcmd, hv⟩

/-- **A setting** makes its writes and stores its value. -/
theorem execFrame_setting {f : Frame} {stk : Stack} {x : Scalar × Int}
    (h : (Command.exec f stk).setting = some x) (s : Cam) :
    (execFrame f stk s).2.SaveParaList = x.1.write x.2 s.SaveParaList ∧
    (execFrame f stk s).2.regs = s.regs ++ x.1.effect x.2 := by
  obtain ⟨hcmd, hvalue⟩ := setting_eq_some h
  obtain ⟨r, hscan, hr⟩ := Option.map_eq_some_iff.mp hvalue
  have hset : f.cmd.isSet = true := by rw [hcmd, x.1.isSet_set]
  have hswitch : switchCmd f.cmd (f.stack stk) { s with ParaLen := UInt8.ofNat f.para.length } =
      some (r.1, { s.setPara (x.1.write x.2 s.SaveParaList) with
        ParaLen := UInt8.ofNat f.para.length, regs := s.regs ++ x.1.effect x.2 }) := by
    rw [switchCmd, hcmd, x.1.setCases_set]
    simp only [proSet_eq, Frame.stack_iRtnData, hscan, Option.map_some, firstValue, hr]
    rw [intAt_write (by decide)]
    rfl
  rcases execFrame_set hset stk s with ⟨hnone, -⟩ | ⟨RtnLen, s1, s', hsome, hexec, hack⟩
  · rw [hswitch] at hnone
    cases hnone
  · rw [hswitch, Option.some.injEq, Prod.mk.injEq] at hsome
    rw [hexec]
    exact ⟨(congrArg ParaRam.SaveParaList (hack.para.trans
      (congrArg Cam.para hsome.2.symm))), hack.regs.trans (congrArg Cam.regs hsome.2.symm)⟩

/-! ## Runs of settings -/

/-- The record, and the cells when the writes since the boot come over `start`. -/
def tuned (start : Cells) (s : Server) : SavePara × Cells :=
  (s.cam.SaveParaList, start.writes s.cam.regs)

/-- A setting on record and cells. -/
def applySetting (a : SavePara × Cells) (x : Scalar × Int) : SavePara × Cells :=
  (x.1.write x.2 a.1, a.2.writes (x.1.effect x.2))

/-- **One step** applies its settings to record and cells. -/
theorem tuned_step {start : Cells} (s : Server) (e : Event) (s' : Server) (h : CamOk s.cam)
    (htuning : Tuning e) (hstep : step s e = some s') : CamOk s'.cam ∧
      tuned start s' = (e.commands.filterMap Command.setting).foldl applySetting
        (tuned start s) := by
  refine ⟨camOk_step s e s' h hstep, ?_⟩
  cases commandStep h hstep with
  | idle he hrecord hregs =>
      rw [he, tuned, tuned, hrecord, hregs]
      rfl
  | exec f stk he hcam =>
      obtain ⟨x, hx, -⟩ := htuning (.exec f stk) (by rw [he]; exact List.mem_cons_self)
      obtain ⟨hrecord, hregs⟩ := execFrame_setting hx s.cam
      rw [he, tuned, hcam, hrecord, hregs, Cells.writes_append]
      simp only [List.filterMap_cons, hx, List.filterMap_nil]
      rfl
  | reboot mem he hs =>
      obtain ⟨x, hx, -⟩ := htuning .reboot (by rw [he]; exact List.mem_cons_self)
      cases hx

/-- **A run of settings**: record and cells are those of the boot with the settings
applied in order. -/
theorem tuned_of_run {init : Cells} {f : Flash} {mem : FrameBuf → Nat → BitVec 32}
    {es : List Event} {s : Server} (h : RunBy step (fun _ e => Tuning e) (boot f mem) es s) :
    tuned (init.writes (bootWrites f)) s =
      (settings es).foldl applySetting (effective f, init.writes (bootWrites f)) := by
  have hboot : ∀ start, tuned start (boot f mem) = (effective f, start) := by
    intro start
    rw [tuned, SaveParaList_boot]
    rfl
  have hsettings : settings es = es.flatMap fun e => e.commands.filterMap Command.setting := by
    rw [settings, executed, List.filterMap_flatMap]
  rw [hsettings, ← hboot (init.writes (bootWrites f))]
  exact (RunBy.refines (Q := fun _ e => Tuning e) tuned_step (camOk_boot f mem) h).2

/-! ## The last settings -/

/-- The values set for a parameter. -/
def valueFor (c : Scalar) (x : Scalar × Int) : Option Int := if x.1 = c then some x.2 else none

/-- The exposure times set, and the values 1 and 99 that switch the automatic exposure. -/
def manualExp (x : Scalar × Int) : Option Int :=
  (valueFor .exp x).filter fun v => v ≠ 1 ∧ v ≠ 99

def autoExp (x : Scalar × Int) : Option Int :=
  (valueFor .exp x).filter fun v => v = 1 ∨ v = 99

/-- A field holds the value set last. -/
theorem field_of_settings {β : Type} {π : SavePara → β} {c : Scalar} {g : Int → β}
    (hset : ∀ v p, π (c.write v p) = g v) (hother : ∀ d v p, d ≠ c → π (d.write v p) = π p)
    (l : List (Scalar × Int)) (a : SavePara × Cells) :
    π (l.foldl applySetting a).1 = ((last (valueFor c) l).map g).getD (π a.1) := by
  refine foldl_last (π := fun a : SavePara × Cells => π a.1) (fun a x => ?_) l a
  simp only [applySetting, valueFor]
  by_cases hx : x.1 = c
  · rw [if_pos hx, hx, hset]
    rfl
  · rw [if_neg hx, hother _ _ _ hx]
    rfl

/-- The fields a boot reads, after a sequence of settings. -/
theorem record_of_settings (l : List (Scalar × Int)) (a : SavePara × Cells) :
    (l.foldl applySetting a).1.bright =
      ((last (valueFor .bright) l).map UInt8.ofInt).getD a.1.bright ∧
    (l.foldl applySetting a).1.exp = ((last (valueFor .exp) l).map UInt8.ofInt).getD a.1.exp :=
  ⟨field_of_settings (π := SavePara.bright) (fun _ _ => rfl)
      (fun d v p hd => by cases d <;> first | rfl | exact absurd rfl hd) l a,
    field_of_settings (π := SavePara.exp) (fun _ _ => rfl)
      (fun d v p hd => by cases d <;> first | rfl | exact absurd rfl hd) l a⟩

/-- What a setting leaves in the cells. -/
theorem cells_applySetting (a : SavePara × Cells) (x : Scalar × Int) :
    (applySetting a x).2.CCR4 = ((valueFor .bright x).map ledLight).getD a.2.CCR4 ∧
    (applySetting a x).2.var 0xA743 =
      ((valueFor .contrast x).map contrastLevel).getD (a.2.var 0xA743) ∧
    (applySetting a x).2.var 0xA744 =
      ((valueFor .contrast x).map contrastLevel).getD (a.2.var 0xA744) ∧
    (applySetting a x).2.var 0xA102 =
      ((autoExp x).map fun v => if v = 99 then 0x0f else 0x00).getD (a.2.var 0xA102) ∧
    (applySetting a x).2.R0x09 =
      ((manualExp x).map fun v => UInt16.ofInt (i32 (v * 13))).getD a.2.R0x09 := by
  obtain ⟨c, v⟩ := x
  cases c
  case exp =>
    by_cases h99 : v = 99
    · subst h99
      exact ⟨rfl, rfl, rfl, rfl, rfl⟩
    · by_cases h1 : v = 1
      · subst h1
        exact ⟨rfl, rfl, rfl, rfl, rfl⟩
      · have heffect : Scalar.effect v .exp =
            [.Page_16bit_WR_Reg 0x00 0x09 (UInt16.ofInt (i32 (v * 13)))] := by
          simp only [Scalar.effect, if_neg h99, if_neg h1]
        have hauto : autoExp (.exp, v) = none := by simp [autoExp, valueFor, h1, h99]
        have hmanual : manualExp (.exp, v) = some v := by simp [manualExp, valueFor, h1, h99]
        rw [applySetting, hauto, hmanual, heffect]
        exact ⟨rfl, rfl, rfl, rfl, rfl⟩
  all_goals exact ⟨rfl, rfl, rfl, rfl, rfl⟩

/-- What the cells hold after a sequence of settings. -/
theorem cells_of_settings (l : List (Scalar × Int)) (a : SavePara × Cells) :
    (l.foldl applySetting a).2.CCR4 = ((last (valueFor .bright) l).map ledLight).getD a.2.CCR4 ∧
    (l.foldl applySetting a).2.var 0xA743 =
      ((last (valueFor .contrast) l).map contrastLevel).getD (a.2.var 0xA743) ∧
    (l.foldl applySetting a).2.var 0xA744 =
      ((last (valueFor .contrast) l).map contrastLevel).getD (a.2.var 0xA744) ∧
    (l.foldl applySetting a).2.var 0xA102 =
      ((last autoExp l).map fun v => if v = 99 then 0x0f else 0x00).getD (a.2.var 0xA102) ∧
    (l.foldl applySetting a).2.R0x09 =
      ((last manualExp l).map fun v => UInt16.ofInt (i32 (v * 13))).getD a.2.R0x09 :=
  ⟨foldl_last (π := fun a : SavePara × Cells => a.2.CCR4)
      (fun a x => (cells_applySetting a x).1) l a,
    foldl_last (π := fun a : SavePara × Cells => a.2.var 0xA743)
      (fun a x => (cells_applySetting a x).2.1) l a,
    foldl_last (π := fun a : SavePara × Cells => a.2.var 0xA744)
      (fun a x => (cells_applySetting a x).2.2.1) l a,
    foldl_last (π := fun a : SavePara × Cells => a.2.var 0xA102)
      (fun a x => (cells_applySetting a x).2.2.2.1) l a,
    foldl_last (π := fun a : SavePara × Cells => a.2.R0x09)
      (fun a x => (cells_applySetting a x).2.2.2.2) l a⟩

/-! ## Values in range -/

theorem toNat_ofInt {v : Int} (h0 : 0 ≤ v) (h100 : v ≤ 100) :
    ((UInt8.ofInt v).toNat : Int) = v := by
  rw [UInt8.ofInt, UInt8.toNat_ofNat']
  omega

/-- Both pieces of code compute the same duty. -/
theorem startLight_ofInt {v : Int} (h0 : 0 ≤ v) (h100 : v ≤ 100) :
    startLight (UInt8.ofInt v) = ledLight v := by
  rw [startLight_eq, toNat_ofInt h0 h100]

/-- The boot writes the lowest of the contrast levels. -/
theorem contrastLevel_eq_iff {v : Int} (h0 : 0 ≤ v) (h100 : v ≤ 100) :
    contrastLevel v = 3 ↔ v < 25 := by
  have hlevel : ((contrastLevel v).toNat : Int) = 16 * (v / 25) + 3 := by
    rw [contrastLevel, Int.tdiv_eq_ediv_of_nonneg h0, UInt16.ofInt, UInt16.toNat_ofNat']
    omega
  rw [← UInt16.toNat_inj, show (3 : UInt16).toNat = 3 from rfl]
  omega

/-- Exposure times are told apart. -/
theorem expData_inj {m n : Nat} (hm : m < 256) (hn : n < 256) :
    UInt16.ofNat (m * 13) = UInt16.ofNat (n * 13) ↔ m = n := by
  rw [← UInt16.toNat_inj, UInt16.toNat_ofNat', UInt16.toNat_ofNat']
  omega

theorem expData_ofInt {v : Int} (h0 : 0 ≤ v) (h100 : v ≤ 100) :
    UInt16.ofInt (i32 (v * 13)) = UInt16.ofNat ((UInt8.ofInt v).toNat * 13) := by
  have hv := toNat_ofInt h0 h100
  have hi32 : i32 (v * 13) = v * 13 := by
    rw [i32, Int.bmod_eq_of_le_mul_two] <;> omega
  rw [← UInt16.toNat_inj, hi32, UInt16.ofInt, UInt16.toNat_ofNat', UInt16.toNat_ofNat']
  omega

/-! ## After a reboot -/

/-- No setting makes the record look like an erased flash. -/
theorem isFirstUse_settings (l : List (Scalar × Int)) (a : SavePara × Cells) :
    isFirstUse (l.foldl applySetting a).1 = isFirstUse a.1 := by
  induction l generalizing a with
  | nil => rfl
  | cons x l ih =>
      have hkeep : ∀ c v p, isFirstUse (Scalar.write v p c) = isFirstUse p := by
        intro c v p
        cases c <;> rfl
      rw [List.foldl_cons, ih]
      exact hkeep x.1 x.2 a.1

theorem isFirstUse_effective (f : Flash) : isFirstUse (effective f) = false := by
  rw [effective_eq, bootRule]
  cases hfirst : isFirstUse (flashRecord f) with
  | false => exact hfirst
  | true => rfl

/-- What a sequence of settings after a boot from `f` must satisfy for the next boot to
find what it left; `init` is what the reset leaves. -/
structure Survives (init : Cells) (f : Flash) (l : List (Scalar × Int)) : Prop where
  bright : last (valueFor .bright) l = none → isFirstUse (flashRecord f) = true →
    (flashRecord f).bright = DefaultList.bright
  contrast : ∀ v, last (valueFor .contrast) l = some v → v < 25
  exp : ∀ v, last (valueFor .exp) l = some v → v = 1 ∨ v = 99 →
    last manualExp l = none ∧ v = (effective f).exp.toNat
  mode : ∀ v, last autoExp l = some v → init.var 0xA102 = if v = 99 then 0x0f else 0x00

/-- The boot never writes the variable of the exposure mode. -/
theorem mode_survives {o : Option Int} {x : UInt16} :
    (o.map fun v => if v = 99 then (0x0f : UInt16) else 0x00).getD x = x ↔
      ∀ v, o = some v → x = if v = 99 then 0x0f else 0x00 := by
  cases o with
  | none => simp
  | some v => simp [eq_comm]

section Survives

variable {f : Flash} {l : List (Scalar × Int)} (hrange : ∀ x ∈ l, 0 ≤ x.2 ∧ x.2 ≤ 100)
include hrange

theorem range_of_last {c : Scalar} {v : Int} (h : last (valueFor c) l = some v) :
    0 ≤ v ∧ v ≤ 100 := by
  obtain ⟨x, hx, hv⟩ := exists_of_last h
  simp only [valueFor, Option.ite_none_right_eq_some, Option.some.injEq] at hv
  rw [← hv.2]
  exact hrange x hx

/-- The duty survives when it was set, or the boot before used the brightness of the
record in effect. -/
theorem bright_survives :
    ((last (valueFor .bright) l).map ledLight).getD (startLight (flashRecord f).bright) =
      startLight (((last (valueFor .bright) l).map UInt8.ofInt).getD (effective f).bright) ↔
    (last (valueFor .bright) l = none → isFirstUse (flashRecord f) = true →
      (flashRecord f).bright = DefaultList.bright) := by
  cases hlast : last (valueFor .bright) l with
  | some v =>
      obtain ⟨h0, h100⟩ := range_of_last hrange hlast
      simp [startLight_ofInt h0 h100]
  | none =>
      rw [effective_eq, bootRule]
      cases hfirst : isFirstUse (flashRecord f) with
      | false => simp
      | true => simp [startLight_default]

theorem contrast_survives :
    ((last (valueFor .contrast) l).map contrastLevel).getD 3 = 3 ↔
      ∀ v, last (valueFor .contrast) l = some v → v < 25 := by
  cases hlast : last (valueFor .contrast) l with
  | none => simp
  | some v =>
      obtain ⟨h0, h100⟩ := range_of_last hrange hlast
      simp [contrastLevel_eq_iff h0 h100]

/-- The integration time survives when an exposure time was set last; a switch of the
automatic exposure is taken for one by the boot. -/
theorem exp_survives {e : UInt8} :
    ((last manualExp l).map fun v => UInt16.ofInt (i32 (v * 13))).getD
        (UInt16.ofNat (e.toNat * 13)) =
      UInt16.ofNat ((((last (valueFor .exp) l).map UInt8.ofInt).getD e).toNat * 13) ↔
    ∀ v, last (valueFor .exp) l = some v → v = 1 ∨ v = 99 →
      last manualExp l = none ∧ v = e.toNat := by
  cases hlast : last (valueFor .exp) l with
  | none =>
      have hmanual : last manualExp l = none := last_eq_none.mpr fun x hx => by
        rw [manualExp, last_eq_none.mp hlast x hx, Option.filter_none]
      simp [hmanual]
  | some v =>
      obtain ⟨h0, h100⟩ := range_of_last hrange hlast
      simp only [Option.map_some, Option.getD_some, Option.some.injEq, forall_eq']
      by_cases hauto : v = 1 ∨ v = 99
      · cases hmanual : last manualExp l with
        | none =>
            have hv := toNat_ofInt h0 h100
            have he := e.toNat_lt
            simp only [Option.map_none, Option.getD_none, true_and]
            rw [expData_inj (by omega) (by omega)]
            omega
        | some w =>
            -- a time was set before, and it is neither 1 nor 99
            obtain ⟨x, hx, hw⟩ := exists_of_last hmanual
            simp only [manualExp, valueFor, Option.filter_eq_some_iff,
              Option.ite_none_right_eq_some, Option.some.injEq] at hw
            obtain ⟨⟨-, rfl⟩, hfilter⟩ := hw
            have hne : x.2 ≠ 1 ∧ x.2 ≠ 99 := by simpa using hfilter
            obtain ⟨hw0, hw100⟩ := hrange x hx
            have hv := toNat_ofInt h0 h100
            have hw := toNat_ofInt hw0 hw100
            simp only [Option.map_some, Option.getD_some, expData_ofInt hw0 hw100]
            refine iff_of_false (fun heq => ?_) fun h => by cases (h hauto).1
            rw [expData_inj (by omega) (by omega)] at heq
            omega
      · have hmanual : last manualExp l = some v := last_filter hlast (by simpa using hauto)
        simp [hmanual, expData_ofInt h0 h100, hauto]

end Survives

/-- The values of a run of settings are in range. -/
theorem range_of_run {s s' : Server} {es : List Event}
    (h : RunBy step (fun _ e => Tuning e) s es s') :
    ∀ x ∈ settings es, 0 ≤ x.2 ∧ x.2 ≤ 100 := by
  intro x hx
  obtain ⟨c, hc, hsetting⟩ := List.mem_filterMap.mp hx
  obtain ⟨e, he, hmem⟩ := List.mem_flatMap.mp hc
  obtain ⟨y, hy, hrange⟩ := (steps_iff_forall_mem h.run).mp h.steps e he c hmem
  rw [hsetting, Option.some.injEq] at hy
  exact hy ▸ hrange

/-- **Live and boot settings**: after a run of settings the next boot leaves brightness,
contrast and exposure as they are exactly when the settings survive. -/
theorem reboot_same_iff {init : Cells} {f : Flash} {mem : FrameBuf → Nat → BitVec 32}
    {es : List Event} {s : Server} (h : RunBy step (fun _ e => Tuning e) (boot f mem) es s) :
    ((init.writes (bootWrites f)).writes s.cam.regs).Agree
        (init.writes (bootWrites s.cam.flash)) ↔ Survives init f (settings es) := by
  have hrange := range_of_run h
  have htuned : tuned (init.writes (bootWrites f)) s = _ := tuned_of_run h
  have hrecord : s.cam.SaveParaList =
      ((settings es).foldl applySetting (effective f, init.writes (bootWrites f))).1 :=
    congrArg Prod.fst htuned
  have hlive : (init.writes (bootWrites f)).writes s.cam.regs =
      ((settings es).foldl applySetting (effective f, init.writes (bootWrites f))).2 :=
    congrArg Prod.snd htuned
  have hflash : flashRecord s.cam.flash = s.cam.SaveParaList := flashRecord_of_run h.run
  have heffective : effective s.cam.flash = s.cam.SaveParaList := by
    rw [effective_eq, hflash, bootRule, hrecord, isFirstUse_settings, isFirstUse_effective]
    rfl
  obtain ⟨hbright, hexp⟩ :=
    record_of_settings (settings es) (effective f, init.writes (bootWrites f))
  rw [← hrecord] at hbright hexp
  -- the cells, now and after the next boot
  obtain ⟨hCCR4, hA743, hA744, hA102, hR0x09⟩ :=
    cells_of_settings (settings es) (effective f, init.writes (bootWrites f))
  obtain ⟨hR0x09₀, hA102₀, hA743₀, hA744₀, hCCR4₀⟩ := cells_bootWrites init f
  obtain ⟨hR0x09', hA102', hA743', hA744', hCCR4'⟩ := cells_bootWrites init s.cam.flash
  rw [Cells.agree_iff, hlive, hR0x09, hA102, hA743, hA744, hCCR4, hR0x09₀, hA102₀, hA743₀, hA744₀,
    hCCR4₀, hR0x09', hA102', hA743', hA744', hCCR4', heffective, hflash, hbright, hexp,
    mode_survives, contrast_survives hrange, exp_survives hrange, bright_survives hrange]
  constructor
  · rintro ⟨hexp, hmode, hcontrast, -, hbright⟩
    exact ⟨hbright, hcontrast, hexp, hmode⟩
  · intro hs
    exact ⟨hs.exp, hs.mode, hs.contrast, hs.contrast, hs.bright⟩

/-- A message with a set command, over an erased chip with the defaults. -/
def setEvents (cmd : Cmd) (value : List Char) : List Event :=
  firstRecv ++ [.recvd [frameBytes cmd value] zeroStack]

/-- The sensor and the timer after a reset, all zeros. -/
def zeroCells : Cells := ⟨0, 0, fun _ => 0, 0⟩

/-- A brightness of 80 survives. -/
theorem reboot_same_bright80 : ∃ s : Server,
    run step (boot defaultFlash fun _ _ => 0) (setEvents .setbrt ['8', '0']) = some s ∧
    ((zeroCells.writes (bootWrites defaultFlash)).writes s.cam.regs).Agree
      (zeroCells.writes (bootWrites s.cam.flash)) := by
  have hend : (run step (boot defaultFlash fun _ _ => 0)
      (setEvents .setbrt ['8', '0'])).isSome = true := by decide +kernel
  obtain ⟨s, hs⟩ := Option.isSome_iff_exists.mp hend
  have htuning : ∀ e ∈ setEvents .setbrt ['8', '0'], Tuning e := by decide +kernel
  have hsettings : settings (setEvents .setbrt ['8', '0']) = [(.bright, 80)] := by decide +kernel
  refine ⟨s, hs, (reboot_same_iff ⟨hs, (steps_iff_forall_mem hs).mpr htuning⟩).mpr ?_⟩
  rw [hsettings]
  exact ⟨nofun, nofun, nofun, nofun⟩

/-- A contrast of 50 does not: the boot writes the lowest level. -/
theorem reboot_changes_contrast50 :
    ¬ ∀ (init : Cells) (f : Flash) (mem : FrameBuf → Nat → BitVec 32) (es : List Event)
      (s : Server), RunBy step (fun _ e => Tuning e) (boot f mem) es s →
        ((init.writes (bootWrites f)).writes s.cam.regs).Agree
          (init.writes (bootWrites s.cam.flash)) := by
  intro h
  have hend : (run step (boot defaultFlash fun _ _ => 0) (setEvents .setcon ['5', '0'])).map
      (fun s => (((zeroCells.writes (bootWrites defaultFlash)).writes s.cam.regs).var 0xA743,
        (zeroCells.writes (bootWrites s.cam.flash)).var 0xA743)) = some (0x23, 0x03) := by
    decide +kernel
  obtain ⟨s, hs, hvar⟩ := Option.map_eq_some_iff.mp hend
  have htuning : ∀ e ∈ setEvents .setcon ['5', '0'], Tuning e := by decide +kernel
  obtain ⟨hlive, hboot⟩ := Prod.mk.inj hvar
  have hA743 := (h zeroCells _ _ _ s ⟨hs, (steps_iff_forall_mem hs).mpr htuning⟩).A743
  rw [hlive, hboot] at hA743
  cases hA743

end NetCamera
