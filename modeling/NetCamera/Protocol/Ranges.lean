import NetCamera.Protocol.Elements
import NetCamera.Protocol.Residue

/-!
# NetCamera.Protocol.Ranges

The ranges of what the set commands store and write for the numbers they are
given.

* `setsiz_legal_iff`, `setsiz_again_iff` — the stored size: when the sensor can
  carry it, and when storing it once more leaves it as it is;
* `hardware_ranges_iff` — the values written for brightness, contrast and
  exposure.

A number comes from fewer than ten characters (`scanned_bounds`), so nothing else
bounds what a handler is given.
-/

namespace NetCamera

open CString

/-! ## Arithmetic of the source -/

/-- Division truncates toward zero. -/
theorem tdiv_eq_ite (a k : Int) : a.tdiv k = if 0 ≤ a then a / k else -(-a / k) := by
  split
  · next h => exact Int.tdiv_eq_ediv_of_nonneg h
  · next h =>
    have hneg := Int.neg_tdiv a k
    rw [Int.tdiv_eq_ediv_of_nonneg (by omega)] at hneg
    rw [hneg, Int.neg_neg]

theorem toNat_u16_ofInt (v : Int) : ((UInt16.ofInt v).toNat : Int) = v % 65536 := by
  simp only [UInt16.ofInt, UInt16.toNat_ofNat']
  omega

theorem toNat_u32_ofInt (v : Int) : ((UInt32.ofInt v).toNat : Int) = v % 4294967296 := by
  simp only [UInt32.ofInt, UInt32.toNat_ofNat']
  omega

/-- The value is an `int`. -/
def FitsInt (v : Int) : Prop := -2147483648 ≤ v ∧ v < 2147483648

theorem i32_of_fitsInt {v : Int} (h : FitsInt v) : i32 v = v := by
  unfold FitsInt at h
  rw [i32, Int.bmod_eq_of_le (by omega) (by omega)]

/-! ## The size -/

/-- A size the sensor and the frame header can carry: inside 1024x768, and 4:3 up to the
truncation of one side. -/
def LegalSize (w h : UInt16) : Prop :=
  1 ≤ w.toNat ∧ w.toNat ≤ 1024 ∧ 1 ≤ h.toNat ∧ h.toNat ≤ 768 ∧
    (4 * h.toNat ≤ 3 * w.toNat ∧ 3 * w.toNat < 4 * h.toNat + 4 ∨
      3 * w.toNat ≤ 4 * h.toNat ∧ 4 * h.toNat < 3 * w.toNat + 3)

/-- The width is the side that is kept: the other one follows from it. -/
def KeepsWidth (w h : Int) : Prop := 3 * min w 1024 ≤ 4 * min h 768

instance (w h : Int) : Decidable (KeepsWidth w h) :=
  inferInstanceAs (Decidable (_ ≤ _))

/-- The requests that are stored as a legal size: the side that is kept is at least 2
or 1, or it is negative and wraps in the `u16` store to a side of that kind. -/
def CarriedSize (w h : Int) : Prop :=
  if KeepsWidth w h then 2 ≤ w ∨ (w < 0 ∧ 1 ≤ w % 262144 ∧ w % 262144 ≤ 1024 ∧ w % 4 ≠ 3)
  else 1 ≤ h ∨ (h < 0 ∧ 1 ≤ h % 196608 ∧ h % 196608 ≤ 768)

/-- The size that comes out, by the side that is kept. -/
theorem fitSize_eq (w h : Int) : fitSize w h =
    if KeepsWidth w h then (min w 1024, (3 * min w 1024).tdiv 4)
    else ((4 * min h 768).tdiv 3, min h 768) := by
  have hw : (if w > 1024 then 1024 else w) = min w 1024 := by omega
  have hh : (if h > 768 then 768 else h) = min h 768 := by omega
  rw [fitSize]
  simp only [hw, hh]
  rfl

/-- A pair of sides as `LegalSize` has it, over the integers. -/
def LegalSides (w h : Int) : Prop :=
  1 ≤ w ∧ w ≤ 1024 ∧ 1 ≤ h ∧ h ≤ 768 ∧
    (4 * h ≤ 3 * w ∧ 3 * w < 4 * h + 4 ∨ 3 * w ≤ 4 * h ∧ 4 * h < 3 * w + 3)

theorem legalSize_ofInt_iff (w h : Int) :
    LegalSize (UInt16.ofInt w) (UInt16.ofInt h) ↔ LegalSides (w % 65536) (h % 65536) := by
  rw [← toNat_u16_ofInt, ← toNat_u16_ofInt, LegalSize, LegalSides]
  omega

/-- A negative width that is kept: width and height wrap to legal sides together, since
a small remainder of both leaves no room between `3 * (w / 65536)` and
`4 * (h / 65536)`. -/
theorem legalSides_wrapped_width {w h : Int} (hh : h = -(-(3 * w) / 4)) :
    LegalSides (w % 65536) (h % 65536) ↔ 1 ≤ w % 262144 ∧ w % 262144 ≤ 1024 ∧ w % 4 ≠ 3 := by
  rw [LegalSides]
  constructor
  · intro hlegal
    have hquot : 3 * (w / 65536) = 4 * (h / 65536) := by omega
    have hfour : w / 65536 = 4 * (w / 65536 - h / 65536) := by omega
    have hsmall : w % 65536 = w % 262144 := by omega
    omega
  · intro hrem
    have hsmall : w % 65536 = w % 262144 := by omega
    have hheight : h = 196608 * (w / 262144) + -(-(3 * (w % 262144)) / 4) := by omega
    have hmod : h % 65536 = -(-(3 * (w % 262144)) / 4) := by omega
    rw [hsmall, hmod]
    omega

/-- A negative height that is kept. -/
theorem legalSides_wrapped_height {w h : Int} (hw : w = -(-(4 * h) / 3)) :
    LegalSides (w % 65536) (h % 65536) ↔ 1 ≤ h % 196608 ∧ h % 196608 ≤ 768 := by
  rw [LegalSides]
  constructor
  · intro hlegal
    have hquot : 4 * (h / 65536) = 3 * (w / 65536) := by omega
    have hthree : h / 65536 = 3 * (w / 65536 - h / 65536) := by omega
    have hsmall : h % 65536 = h % 196608 := by omega
    omega
  · intro hrem
    have hsmall : h % 65536 = h % 196608 := by omega
    have hwidth : w = 262144 * (h / 196608) + -(-(4 * (h % 196608)) / 3) := by omega
    have hmod : w % 65536 = -(-(4 * (h % 196608)) / 3) := by omega
    rw [hsmall, hmod]
    omega

/-- **Which requests are stored as a legal size.** -/
theorem legalSize_iff (w h : Int) :
    LegalSize (UInt16.ofInt (fitSize w h).1) (UInt16.ofInt (fitSize w h).2) ↔ CarriedSize w h := by
  rw [legalSize_ofInt_iff, CarriedSize, fitSize_eq]
  by_cases hkeep : KeepsWidth w h
  · simp only [if_pos hkeep]
    rw [tdiv_eq_ite]
    unfold KeepsWidth at hkeep
    by_cases hneg : w < 0
    · have hmin : min w 1024 = w := by omega
      rw [hmin, if_neg (by omega), legalSides_wrapped_width rfl]
      omega
    · have hwidth : min w 1024 % 65536 = min w 1024 := by omega
      have hheight : 3 * min w 1024 / 4 % 65536 = 3 * min w 1024 / 4 := by omega
      rw [if_pos (by omega), LegalSides, hwidth, hheight]
      omega
  · simp only [if_neg hkeep]
    rw [tdiv_eq_ite]
    unfold KeepsWidth at hkeep
    by_cases hneg : h < 0
    · have hmin : min h 768 = h := by omega
      rw [hmin, if_neg (by omega), legalSides_wrapped_height rfl]
      omega
    · have hheight : min h 768 % 65536 = min h 768 := by omega
      have hwidth : 4 * min h 768 / 3 % 65536 = 4 * min h 768 / 3 := by omega
      rw [if_pos (by omega), LegalSides, hwidth, hheight]
      omega

/-- Two integers that are counted arrive in the first two slots of the caller. -/
theorem intAt_countValues {n : UInt8} (hn : 2 ≤ n.toNat) (RtnValue : Buf Int 20)
    (values : Buf Int 8) (a b : Int) :
    intAt (RtnValue.write 0 (countValues n (values.write 0 [a, b]))) 0 = a ∧
    intAt (RtnValue.write 0 (countValues n (values.write 0 [a, b]))) 1 = b := by
  obtain ⟨k, hk⟩ : ∃ k, n.toNat = k + 2 := ⟨n.toNat - 2, by omega⟩
  have hvals : countValues n (values.write 0 [a, b]) = a :: b :: (values.elems.drop 2).take k := by
    rw [countValues, Buf.elems_write _ (by simp), hk]
    rfl
  have hlen : (a :: b :: (values.elems.drop 2).take k).length ≤ 20 := by
    simp only [List.length_cons, List.length_take, List.length_drop, Buf.length_elems]
    omega
  rw [hvals, intAt_write_lt _ (by simp) hlen, intAt_write_lt _ (by simp) hlen]
  exact ⟨rfl, rfl⟩

/-- What `setsiz` stores for two integers. -/
theorem setsiz_stores {stk : Stack} {n : UInt8} {values : Buf Int 8}
    (hscan : Scan_Params stk.mem stk.iRtnData 8 = some (n, values)) (hn : 2 ≤ n.toNat) (s : Cam) :
    ∃ s', switchCmd .setsiz stk s = some (n, s') ∧
      s'.SaveParaList.size0 = UInt16.ofInt (fitSize (intAt values 0) (intAt values 1)).1 ∧
      s'.SaveParaList.size1 = UInt16.ofInt (fitSize (intAt values 0) (intAt values 1)).2 := by
  rw [Scan_Params_eq] at hscan
  obtain ⟨h0, h1⟩ := intAt_countValues hn stk.RtnValue values
    (fitSize (intAt values 0) (intAt values 1)).1 (fitSize (intAt values 0) (intAt values 1)).2
  exact ⟨_, switchCmd_of_scan (c := .setsiz) rfl hscan s, congrArg UInt16.ofInt h0,
    congrArg UInt16.ofInt h1⟩

/-- **When `setsiz` stores a legal size.** -/
theorem setsiz_legal_iff {stk : Stack} {n : UInt8} {values : Buf Int 8}
    (hscan : Scan_Params stk.mem stk.iRtnData 8 = some (n, values)) (hn : 2 ≤ n.toNat) (s : Cam) :
    ∃ s', switchCmd .setsiz stk s = some (n, s') ∧
      (LegalSize s'.SaveParaList.size0 s'.SaveParaList.size1 ↔
        CarriedSize (intAt values 0) (intAt values 1)) := by
  obtain ⟨s', hswitch, hw, hh⟩ := setsiz_stores hscan hn s
  exact ⟨s', hswitch, by rw [hw, hh, legalSize_iff]⟩

/-- The locals with nothing but a parameter in them, and a camera with `DefaultList`. -/
def withPara (t : List UInt8) : Stack :=
  ⟨(Buf.fill 20 0).write 0 t, [], Buf.fill 20 0, Buf.fill 8 0⟩

def defaultCam : Cam :=
  ⟨⟨DefaultList, ⟨0, 0, 0⟩⟩, 0, Buf.fill 100 0, fun _ => NorFlash.blank, []⟩

/-- `[640,480]`. -/
theorem setsiz_legal_vga :
    ∃ s', switchCmd .setsiz (withPara (ascii ['[', '6', '4', '0', ',', '4', '8', '0', ']']))
        defaultCam = some (2, s') ∧
      (LegalSize s'.SaveParaList.size0 s'.SaveParaList.size1 ↔ CarriedSize 640 480) :=
  setsiz_legal_iff (by decide +kernel :
    Scan_Params _ _ 8 = some (2, (Buf.fill 8 0).write 0 [640, 480])) (by decide) _

/-- `[0,0]` is stored as it is. -/
theorem setsiz_zero :
    ∃ s', Scan_Params (withPara (ascii ['[', '0', ',', '0', ']'])).mem (Buf.fill 8 0) 8 =
        some (2, (Buf.fill 8 0).write 0 [0, 0]) ∧
      switchCmd .setsiz (withPara (ascii ['[', '0', ',', '0', ']'])) defaultCam = some (2, s') ∧
      s'.SaveParaList.size0 = 0 ∧ ¬ LegalSize s'.SaveParaList.size0 s'.SaveParaList.size1 := by
  refine ⟨_, by decide +kernel, rfl, by decide +kernel, fun h => ?_⟩
  have hwidth := h.1
  revert hwidth
  decide +kernel

/-! ## Setting the stored size again -/

/-- The other side follows from the one that is kept without truncation. -/
def ExactSize (w h : Int) : Prop :=
  if KeepsWidth w h then min w 1024 % 4 = 0 else min h 768 % 3 = 0

instance (w h : Int) : Decidable (ExactSize w h) := by
  unfold ExactSize
  infer_instance

/-- A request that is not negative fits without wrapping. -/
theorem fitSize_bounds {w h : Int} (hw : 0 ≤ w) (hh : 0 ≤ h) :
    (0 ≤ (fitSize w h).1 ∧ (fitSize w h).1 ≤ 1024) ∧
      0 ≤ (fitSize w h).2 ∧ (fitSize w h).2 ≤ 768 := by
  rw [fitSize_eq]
  by_cases hkeep : KeepsWidth w h
  · simp only [if_pos hkeep, tdiv_eq_ite]
    unfold KeepsWidth at hkeep
    split <;> omega
  · simp only [if_neg hkeep, tdiv_eq_ite]
    unfold KeepsWidth at hkeep
    split <;> omega

/-- A size that fits is left as it is exactly when it is 4:3. -/
theorem fitSize_eq_self_iff {w h : Int} (hw : 0 ≤ w ∧ w ≤ 1024) (hh : 0 ≤ h ∧ h ≤ 768) :
    fitSize w h = (w, h) ↔ 4 * h = 3 * w := by
  have hwmin : min w 1024 = w := by omega
  have hhmin : min h 768 = h := by omega
  rw [fitSize_eq, hwmin, hhmin]
  by_cases hkeep : KeepsWidth w h
  · rw [if_pos hkeep, tdiv_eq_ite, if_pos (by omega), Prod.mk.injEq]
    unfold KeepsWidth at hkeep
    omega
  · rw [if_neg hkeep, tdiv_eq_ite, if_pos (by omega), Prod.mk.injEq]
    unfold KeepsWidth at hkeep
    omega

/-- What fits a positive request is 4:3 exactly when nothing was truncated. -/
theorem fitSize_exact_iff {w h : Int} (hw : 0 < w) (hh : 0 < h) :
    4 * (fitSize w h).2 = 3 * (fitSize w h).1 ↔ ExactSize w h := by
  rw [fitSize_eq, ExactSize]
  by_cases hkeep : KeepsWidth w h
  · simp only [if_pos hkeep]
    rw [tdiv_eq_ite, if_pos (by omega)]
    omega
  · simp only [if_neg hkeep]
    rw [tdiv_eq_ite, if_pos (by omega)]
    omega

/-- Small sides survive the `u16` store. -/
theorem toNat_u16_ofInt_of_le {v : Int} (h : 0 ≤ v ∧ v ≤ 1024) :
    ((UInt16.ofInt v).toNat : Int) = v := by
  rw [toNat_u16_ofInt]
  omega

theorem u16_ofInt_inj {v u : Int} (hv : 0 ≤ v ∧ v ≤ 1024) (hu : 0 ≤ u ∧ u ≤ 1024) :
    UInt16.ofInt v = UInt16.ofInt u ↔ v = u := by
  refine ⟨fun h => ?_, congrArg UInt16.ofInt⟩
  rw [← toNat_u16_ofInt_of_le hv, h, toNat_u16_ofInt_of_le hu]

/-- **When setting the stored size again leaves it as it is.** -/
theorem setsiz_again_iff {stk : Stack} {n : UInt8} {values : Buf Int 8}
    (hscan : Scan_Params stk.mem stk.iRtnData 8 = some (n, values)) (hn : 2 ≤ n.toNat)
    (hw : 0 < intAt values 0) (hh : 0 < intAt values 1) (s : Cam) :
    ∃ s₁, switchCmd .setsiz stk s = some (n, s₁) ∧
      ∀ stk' n' values', Scan_Params stk'.mem stk'.iRtnData 8 = some (n', values') →
        2 ≤ n'.toNat → intAt values' 0 = s₁.SaveParaList.size0.toNat →
        intAt values' 1 = s₁.SaveParaList.size1.toNat →
        ∃ s₂, switchCmd .setsiz stk' s₁ = some (n', s₂) ∧
          (s₂.SaveParaList.size0 = s₁.SaveParaList.size0 ∧
              s₂.SaveParaList.size1 = s₁.SaveParaList.size1 ↔
            ExactSize (intAt values 0) (intAt values 1)) := by
  obtain ⟨s₁, hswitch, hwidth, hheight⟩ := setsiz_stores hscan hn s
  obtain ⟨hb1, hb2⟩ := fitSize_bounds (Int.le_of_lt hw) (Int.le_of_lt hh)
  obtain ⟨hb1', hb2'⟩ := fitSize_bounds hb1.1 hb2.1
  have hexact := fitSize_exact_iff hw hh
  have hself := fitSize_eq_self_iff hb1 hb2
  refine ⟨s₁, hswitch, fun stk' n' values' hscan' hn' h0 h1 => ?_⟩
  obtain ⟨s₂, hswitch', hwidth', hheight'⟩ := setsiz_stores hscan' hn' s₁
  rw [h0, h1, hwidth, hheight, toNat_u16_ofInt_of_le hb1, toNat_u16_ofInt_of_le (by omega)]
    at hwidth' hheight'
  refine ⟨s₂, hswitch', ?_⟩
  rw [← hexact, ← hself, Prod.ext_iff, hwidth', hheight', hwidth, hheight,
    u16_ofInt_inj hb1' hb1, u16_ofInt_inj (by omega) (by omega)]

/-- `[640,480]` is a fixed point. -/
theorem setsiz_again_vga :
    ∃ s₁, switchCmd .setsiz (withPara (ascii ['[', '6', '4', '0', ',', '4', '8', '0', ']']))
        defaultCam = some (2, s₁) ∧
      ∀ stk' n' values', Scan_Params stk'.mem stk'.iRtnData 8 = some (n', values') →
        2 ≤ n'.toNat → intAt values' 0 = s₁.SaveParaList.size0.toNat →
        intAt values' 1 = s₁.SaveParaList.size1.toNat →
        ∃ s₂, switchCmd .setsiz stk' s₁ = some (n', s₂) ∧
          (s₂.SaveParaList.size0 = s₁.SaveParaList.size0 ∧
              s₂.SaveParaList.size1 = s₁.SaveParaList.size1 ↔ ExactSize 640 480) :=
  setsiz_again_iff (by decide +kernel :
    Scan_Params _ _ 8 = some (2, (Buf.fill 8 0).write 0 [640, 480])) (by decide) (by decide)
    (by decide) _

/-- `[5,5]` is stored as 5x3, and `[5,3]` as 4x3. -/
theorem setsiz_again_five :
    ∃ s₁ s₂, Scan_Params (withPara (ascii ['[', '5', ',', '5', ']'])).mem (Buf.fill 8 0) 8 =
        some (2, (Buf.fill 8 0).write 0 [5, 5]) ∧
      switchCmd .setsiz (withPara (ascii ['[', '5', ',', '5', ']'])) defaultCam = some (2, s₁) ∧
      s₁.SaveParaList.size0 = 5 ∧ s₁.SaveParaList.size1 = 3 ∧
      Scan_Params (withPara (ascii ['[', '5', ',', '3', ']'])).mem (Buf.fill 8 0) 8 =
        some (2, (Buf.fill 8 0).write 0 [5, 3]) ∧
      switchCmd .setsiz (withPara (ascii ['[', '5', ',', '3', ']'])) s₁ = some (2, s₂) ∧
      s₂.SaveParaList.size0 = 4 ∧ s₂.SaveParaList.size1 = 3 :=
  ⟨_, _, by decide +kernel, rfl, by decide +kernel, by decide +kernel, by decide +kernel, rfl,
    by decide +kernel, by decide +kernel⟩

/-! ## Values written to the hardware -/

/-- A number that was counted comes from fewer than ten characters. -/
theorem scanned_bounds {mem : List UInt8} {pArray values : Buf Int 8} {n : UInt8}
    (hscan : Scan_Params mem pArray 8 = some (n, values)) (hn : 0 < n) :
    -100000000 < intAt values 0 ∧ intAt values 0 < 1000000000 := by
  have hrun : ¬ RunsOff 8 (cstr mem 0) := by
    intro h
    rw [Scan_Params_eq, (scanText_eq_none_iff pArray).mpr h] at hscan
    cases hscan
  rw [Scan_Params_eq, scanText_eq (by decide) hrun, Option.some.injEq, Prod.mk.injEq] at hscan
  obtain ⟨rfl, rfl⟩ := hscan
  have hle := counted_le 8 (cstr mem 0)
  have hlook := length_looked_le (by decide : 0 < 8) (cstr mem 0)
  have hshorts := length_shorts_le (looked 8 (cstr mem 0))
  cases hs : shorts (looked 8 (cstr mem 0)) with
  | nil =>
      rw [hs, List.length_nil, Nat.le_zero] at hle
      rw [hle] at hn
      exact absurd hn (by decide)
  | cons e es =>
      have hmem : e ∈ shorts (looked 8 (cstr mem 0)) := hs ▸ List.mem_cons_self
      have hshort : Short e := by simpa using (List.mem_filter.mp hmem).2
      have hreads : reads (looked 8 (cstr mem 0)) = atoiStr e :: es.map atoiStr := by
        rw [reads, hs, List.map_cons]
      have hfirst : intAt (pArray.write 0 (atoiStr e :: es.map atoiStr)) 0 = atoiStr e := by
        rw [hs] at hshorts
        rw [intAt_write_lt _ (by simp) (by simpa using Nat.le_trans hshorts hlook)]
        rfl
      have hbounds := atoiStr_bounds (k := 8) (Nat.le_of_lt_succ hshort)
      rw [hreads, hfirst]
      exact ⟨by omega, by omega⟩

/-- The timer period of the LED's PWM, `TIM3_PWM_Init(500-1, 90-1)`. -/
def pwmPeriod : Nat := 500 - 1

/-- `setbrt` computes an `int` and writes a compare value inside the timer period. -/
structure BrtInRange (stk : Stack) (v : Int) : Prop where
  int : FitsInt (v * 5)
  compare : ∀ r c, Pro_setbrt stk = some r → .TIM_SetTIM3Compare4 c ∈ r.writes →
    c.toNat ≤ pwmPeriod

/-- `setcon` computes an `int` and writes `16 * level + 3` with a level of 0 to 4. -/
structure ConInRange (stk : Stack) (v : Int) : Prop where
  int : FitsInt (16 * v.tdiv 25 + 3)
  level : ∀ r data, Pro_setcon stk = some r → .Page_16bit_WR_Reg 0x01 0xC8 data ∈ r.writes →
    ∃ level ≤ 4, data.toNat = 16 * level + 3

/-- `setexp` computes an `int` and writes it without loss. -/
structure ExpInRange (stk : Stack) (v : Int) : Prop where
  int : FitsInt (v * 13)
  time : ∀ r data, Pro_setexp stk = some r → .Page_16bit_WR_Reg 0x00 0x09 data ∈ r.writes →
    (data.toNat : Int) = v * 13

section hardware

variable {stk : Stack} {n : UInt8} {values : Buf Int 8}

/-- What a handler writes once its scan has returned. -/
theorem proSet_writes {vs : UInt8 → Buf Int 8 → List Int} {effect : Buf Int 8 → List RegWrite}
    (hscan : Scan_Params stk.mem stk.iRtnData 8 = some (n, values)) {r : SetResult}
    (h : proSet vs effect stk = some r) : r.writes = effect values := by
  rw [proSet, hscan, Option.map_some, Option.some.injEq] at h
  rw [← h]

/-- The compare value of a brightness that does not overflow. -/
theorem toNat_ledLight {v : Int} (h : FitsInt (v * 5)) :
    ((ledLight v).toNat : Int) = if v = 100 then 499 else if v < 2 then 0 else v * 5 := by
  have hi := i32_of_fitsInt h
  unfold FitsInt at h
  rw [ledLight, hi, toNat_u32_ofInt]
  split_ifs <;> omega

theorem brtInRange_iff (hscan : Scan_Params stk.mem stk.iRtnData 8 = some (n, values))
    (hn : 0 < n) : BrtInRange stk (intAt values 0) ↔ intAt values 0 ≤ 100 := by
  obtain ⟨hlow, -⟩ := scanned_bounds hscan hn
  constructor
  · intro h
    have hnat := toNat_ledLight h.int
    obtain ⟨r, hr⟩ : ∃ r, Pro_setbrt stk = some r := by
      rw [Pro_setbrt, proSet, hscan]
      exact ⟨_, rfl⟩
    have hle := h.compare r (ledLight (intAt values 0)) hr
      (by rw [proSet_writes hscan hr]; exact List.mem_singleton.mpr rfl)
    have hperiod : pwmPeriod = 499 := rfl
    split_ifs at hnat <;> omega
  · intro h
    have hint : FitsInt (intAt values 0 * 5) := ⟨by omega, by omega⟩
    refine ⟨hint, fun r c hr hc => ?_⟩
    have hnat := toNat_ledLight hint
    have hperiod : pwmPeriod = 499 := rfl
    rw [proSet_writes hscan hr, List.mem_singleton, RegWrite.TIM_SetTIM3Compare4.injEq] at hc
    rw [hc]
    split_ifs at hnat <;> omega

theorem expInRange_iff (hscan : Scan_Params stk.mem stk.iRtnData 8 = some (n, values)) :
    ExpInRange stk (intAt values 0) ↔ 0 ≤ intAt values 0 ∧ intAt values 0 ≤ 5041 := by
  have hloss : ∀ v : Int, FitsInt (v * 13) →
      (((UInt16.ofInt (i32 (v * 13))).toNat : Int) = v * 13 ↔ 0 ≤ v ∧ v ≤ 5041) := by
    intro v hint
    rw [i32_of_fitsInt hint, toNat_u16_ofInt]
    omega
  constructor
  · intro h
    by_cases hauto : intAt values 0 = 99 ∨ intAt values 0 = 1
    · omega
    · obtain ⟨r, hr⟩ : ∃ r, Pro_setexp stk = some r := by
        rw [Pro_setexp, proSet, hscan]
        exact ⟨_, rfl⟩
      refine (hloss _ h.int).mp (h.time r _ hr ?_)
      rw [proSet_writes hscan hr, if_neg (fun h99 => hauto (Or.inl h99)),
        if_neg (fun h1 => hauto (Or.inr h1))]
      exact List.mem_singleton.mpr rfl
  · intro h
    have hint : FitsInt (intAt values 0 * 13) := ⟨by omega, by omega⟩
    refine ⟨hint, fun r data hr hdata => ?_⟩
    rw [proSet_writes hscan hr] at hdata
    split_ifs at hdata
    · simp at hdata
    · simp at hdata
    · simp only [List.mem_singleton, RegWrite.Page_16bit_WR_Reg.injEq, true_and] at hdata
      rw [hdata]
      exact (hloss _ hint).mpr h

/-- The level is cut to twelve bits by the `u16` store, and wraps. -/
theorem conInRange_iff (hscan : Scan_Params stk.mem stk.iRtnData 8 = some (n, values))
    (hn : 0 < n) : ConInRange stk (intAt values 0) ↔ (intAt values 0).tdiv 25 % 4096 ≤ 4 := by
  obtain ⟨hlow, hhigh⟩ := scanned_bounds hscan hn
  obtain ⟨q, hq⟩ : ∃ q, q = (intAt values 0).tdiv 25 := ⟨_, rfl⟩
  have hbound : -4000000 ≤ q ∧ q < 40000000 := by
    rw [hq, tdiv_eq_ite]
    split <;> omega
  have hnat : ((contrastLevel (intAt values 0)).toNat : Int) = 16 * (q % 4096) + 3 := by
    rw [contrastLevel, ← hq, toNat_u16_ofInt]
    omega
  rw [← hq]
  constructor
  · intro h
    obtain ⟨r, hr⟩ : ∃ r, Pro_setcon stk = some r := by
      rw [Pro_setcon, proSet, hscan]
      exact ⟨_, rfl⟩
    obtain ⟨level, hlevel, hdata⟩ := h.level r (contrastLevel (intAt values 0)) hr
      (by rw [proSet_writes hscan hr]; simp)
    omega
  · intro h
    refine ⟨by rw [← hq]; exact ⟨by omega, by omega⟩, fun r data hr hdata => ?_⟩
    rw [proSet_writes hscan hr] at hdata
    have hlevel : data = contrastLevel (intAt values 0) := by simpa using hdata
    exact ⟨(q % 4096).toNat, by omega, by rw [hlevel]; omega⟩

/-- The values of the three commands are in range together from 0 to 100. -/
theorem inRange_iff (hscan : Scan_Params stk.mem stk.iRtnData 8 = some (n, values))
    (hn : 0 < n) :
    BrtInRange stk (intAt values 0) ∧ ConInRange stk (intAt values 0) ∧
        ExpInRange stk (intAt values 0) ↔ 0 ≤ intAt values 0 ∧ intAt values 0 ≤ 100 := by
  rw [brtInRange_iff hscan hn, conInRange_iff hscan hn, expInRange_iff hscan]
  constructor
  · intro h
    omega
  · intro h
    rw [Int.tdiv_eq_ediv_of_nonneg h.1]
    omega

end hardware

/-- **Which values keep the hardware writes in range**, the PWM compare value growing
with the brightness: those from 0 to 100; and which ones keep each command's. -/
theorem hardware_ranges_iff {stk₁ stk₂ : Stack} {n₁ n₂ : UInt8} {values₁ values₂ : Buf Int 8}
    (hscan₁ : Scan_Params stk₁.mem stk₁.iRtnData 8 = some (n₁, values₁)) (hn₁ : 0 < n₁)
    (hscan₂ : Scan_Params stk₂.mem stk₂.iRtnData 8 = some (n₂, values₂)) (hn₂ : 0 < n₂)
    (hle : intAt values₁ 0 ≤ intAt values₂ 0) :
    (((BrtInRange stk₁ (intAt values₁ 0) ∧ ConInRange stk₁ (intAt values₁ 0) ∧
        ExpInRange stk₁ (intAt values₁ 0)) ∧
      (BrtInRange stk₂ (intAt values₂ 0) ∧ ConInRange stk₂ (intAt values₂ 0) ∧
        ExpInRange stk₂ (intAt values₂ 0)) ∧
      ∀ r₁ r₂ c₁ c₂, Pro_setbrt stk₁ = some r₁ → Pro_setbrt stk₂ = some r₂ →
        .TIM_SetTIM3Compare4 c₁ ∈ r₁.writes → .TIM_SetTIM3Compare4 c₂ ∈ r₂.writes → c₁ ≤ c₂) ↔
      0 ≤ intAt values₁ 0 ∧ intAt values₂ 0 ≤ 100) ∧
    (BrtInRange stk₁ (intAt values₁ 0) ↔ intAt values₁ 0 ≤ 100) ∧
    (ConInRange stk₁ (intAt values₁ 0) ↔ (intAt values₁ 0).tdiv 25 % 4096 ≤ 4) ∧
    (ExpInRange stk₁ (intAt values₁ 0) ↔ 0 ≤ intAt values₁ 0 ∧ intAt values₁ 0 ≤ 5041) := by
  refine ⟨?_, brtInRange_iff hscan₁ hn₁, conInRange_iff hscan₁ hn₁, expInRange_iff hscan₁⟩
  rw [inRange_iff hscan₁ hn₁, inRange_iff hscan₂ hn₂]
  constructor
  · rintro ⟨h₁, h₂, -⟩
    exact ⟨h₁.1, h₂.2⟩
  · rintro ⟨h₁, h₂⟩
    refine ⟨by omega, by omega, fun r₁ r₂ c₁ c₂ hr₁ hr₂ hc₁ hc₂ => ?_⟩
    rw [proSet_writes hscan₁ hr₁, List.mem_singleton, RegWrite.TIM_SetTIM3Compare4.injEq] at hc₁
    rw [proSet_writes hscan₂ hr₂, List.mem_singleton, RegWrite.TIM_SetTIM3Compare4.injEq] at hc₂
    have hnat₁ := toNat_ledLight (v := intAt values₁ 0) ⟨by omega, by omega⟩
    have hnat₂ := toNat_ledLight (v := intAt values₂ 0) ⟨by omega, by omega⟩
    rw [hc₁, hc₂, UInt32.le_iff_toNat_le]
    split_ifs at hnat₁ hnat₂ <;> omega

/-- 99 and 100 as brightness: 495 and 499 are written. -/
theorem hardware_ranges_top :
    (((BrtInRange (withPara (ascii ['9', '9'])) 99 ∧ ConInRange (withPara (ascii ['9', '9'])) 99 ∧
        ExpInRange (withPara (ascii ['9', '9'])) 99) ∧
      (BrtInRange (withPara (ascii ['1', '0', '0'])) 100 ∧
        ConInRange (withPara (ascii ['1', '0', '0'])) 100 ∧
        ExpInRange (withPara (ascii ['1', '0', '0'])) 100) ∧
      ∀ r₁ r₂ c₁ c₂, Pro_setbrt (withPara (ascii ['9', '9'])) = some r₁ →
        Pro_setbrt (withPara (ascii ['1', '0', '0'])) = some r₂ →
        .TIM_SetTIM3Compare4 c₁ ∈ r₁.writes → .TIM_SetTIM3Compare4 c₂ ∈ r₂.writes → c₁ ≤ c₂) ↔
      (0 : Int) ≤ 99 ∧ (100 : Int) ≤ 100) ∧
    (BrtInRange (withPara (ascii ['9', '9'])) 99 ↔ (99 : Int) ≤ 100) ∧
    (ConInRange (withPara (ascii ['9', '9'])) 99 ↔ (99 : Int).tdiv 25 % 4096 ≤ 4) ∧
    (ExpInRange (withPara (ascii ['9', '9'])) 99 ↔ (0 : Int) ≤ 99 ∧ (99 : Int) ≤ 5041) :=
  hardware_ranges_iff
    (by decide +kernel : Scan_Params _ _ 8 = some (1, (Buf.fill 8 0).write 0 [99])) (by decide)
    (by decide +kernel : Scan_Params _ _ 8 = some (1, (Buf.fill 8 0).write 0 [100])) (by decide)
    (by decide)

/-- `setbrt:101` writes 505, and for `setbrt:999999999` the product overflows. -/
theorem setbrt_out_of_range :
    (∃ r, Pro_setbrt (withPara (ascii ['1', '0', '1'])) = some r ∧ r.RtnLen = 1 ∧
      r.writes = [.TIM_SetTIM3Compare4 505]) ∧
    ¬ BrtInRange (withPara (ascii ['1', '0', '1'])) 101 ∧
    (∃ r, Pro_setbrt (withPara (ascii ['9', '9', '9', '9', '9', '9', '9', '9', '9'])) = some r ∧
      r.RtnLen = 1 ∧ intAt r.RtnValue 0 = 999999999) ∧
    ¬ BrtInRange (withPara (ascii ['9', '9', '9', '9', '9', '9', '9', '9', '9'])) 999999999 := by
  refine ⟨⟨_, rfl, by decide +kernel, by decide +kernel⟩, fun h => ?_,
    ⟨_, rfl, by decide +kernel, by decide +kernel⟩, fun h => ?_⟩
  · have hle := h.compare _ 505 rfl (by decide +kernel)
    revert hle
    decide
  · have hint := h.int.2
    revert hint
    decide

end NetCamera
