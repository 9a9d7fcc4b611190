import NetCamera.Protocol.Grammar
import NetCamera.Server.Stream

/-!
# NetCamera.Server.SetGet

A parameter set and read back.

The scalar parameters differ in their commands and in the width of their field:
`Scalar.write` stores a number there, and what is read back is the number modulo
the width (`value_write`).  Between the two only a boot that finds the first-use
marker touches a parameter that no command sets (`value_step`).  `set_get_iff`
says when a client reads what it has set.
-/

namespace NetCamera

open CString Run

/-! ## Scalar parameters -/

/-- The parameters of one number that can be read back. -/
inductive Scalar where
  | port | rate | bright | contrast | exp
  deriving DecidableEq, Repr

namespace Scalar

def set : Scalar → Cmd
  | port => .setpot
  | rate => .setrat
  | bright => .setbrt
  | contrast => .setcon
  | exp => .setexp

def get : Scalar → Cmd
  | port => .getpot
  | rate => .getrat
  | bright => .getbrt
  | contrast => .getcon
  | exp => .getexp

/-- The width of the field. -/
def bits : Scalar → Nat
  | port => 16
  | _ => 8

def value (p : SavePara) : Scalar → Nat
  | port => p.port.toNat
  | rate => p.rate.toNat
  | bright => p.bright.toNat
  | contrast => p.contrast.toNat
  | exp => p.exp.toNat

/-- The record with `v` stored in the field. -/
def write (v : Int) (p : SavePara) : Scalar → SavePara
  | port => { p with port := UInt16.ofInt v }
  | rate => { p with rate := UInt8.ofInt v }
  | bright => { p with bright := UInt8.ofInt v }
  | contrast => { p with contrast := UInt8.ofInt v }
  | exp => { p with exp := UInt8.ofInt v }

/-- The hardware writes of the set command for the number `v`. -/
def effect (v : Int) : Scalar → List RegWrite
  | bright => [.TIM_SetTIM3Compare4 (ledLight v)]
  | contrast =>
    [.Page_16bit_WR_Reg 0x01 0xC6 0xA743, .Page_16bit_WR_Reg 0x01 0xC8 (contrastLevel v),
     .Page_16bit_WR_Reg 0x01 0xC6 0xA744, .Page_16bit_WR_Reg 0x01 0xC8 (contrastLevel v)]
  | exp =>
    if v = 99 then [.Page_16bit_WR_Reg 0x01 0xC6 0xa102, .Page_16bit_WR_Reg 0x01 0xC8 0x0f]
    else if v = 1 then [.Page_16bit_WR_Reg 0x01 0xC6 0xa102, .Page_16bit_WR_Reg 0x01 0xC8 0x00]
    else [.Page_16bit_WR_Reg 0x00 0x09 (UInt16.ofInt (i32 (v * 13)))]
  | _ => []

theorem isSet_set (c : Scalar) : c.set.isSet = true := by cases c <;> rfl

theorem isSet_get (c : Scalar) : c.get.isSet = false := by cases c <;> rfl

/-- A number is stored modulo the width of its field. -/
theorem value_write (c : Scalar) (v : Int) (p : SavePara) :
    (c.value (c.write v p) : Int) = v % 2 ^ c.bits := by
  have h8 : ((UInt8.ofInt v).toNat : Int) = v % 2 ^ 8 := by
    rw [UInt8.ofInt, UInt8.toNat_ofNat']
    omega
  have h16 : ((UInt16.ofInt v).toNat : Int) = v % 2 ^ 16 := by
    rw [UInt16.ofInt, UInt16.toNat_ofNat']
    omega
  cases c
  case port => exact h16
  all_goals exact h8

/-- The get command prints the field. -/
theorem valueText_get (c : Scalar) (s : Cam) :
    valueText c.get s = decimal (c.value s.SaveParaList) := by
  cases c <;> rfl

/-- The set command hands over the first number it scans, and stores it. -/
theorem setCases_set (c : Scalar) : setCases c.set =
    some (proSet firstValue fun iRtnData => c.effect (intAt iRtnData 0),
      fun RtnValue p => c.write (intAt RtnValue 0) p) := by
  cases c <;> rfl

/-- A command that names another field leaves this one. -/
theorem value_of_changesOnly {c : Scalar} {cmd : Cmd} {p q : SavePara} (h : cmd.ChangesOnly p q)
    (hne : cmd ≠ c.set) : c.value q = c.value p := by
  have hrestore : c.value (cmd.restore p q) = c.value q := by
    cases c <;> cases cmd <;> first | rfl | exact absurd rfl hne
  rw [← hrestore, h]

end Scalar

/-! ## Setting -/

/-- A message sets the parameter to `v`: its text is a decimal number of fewer than ten
characters, and ends in `Para` where the parameter does. -/
structure Sets (c : Scalar) (v : Int) (fr : Frame) (stk : Stack) : Prop where
  cmd : fr.cmd = c.set
  text : (fr.stack stk).text = fr.para
  decimal : IsDecimal fr.para v
  short : fr.para.length < 10

/-- A decimal number is neither a list nor cut at a comma. -/
theorem not_mem_isDecimal {t : List UInt8} {v : Int} (h : IsDecimal t v) :
    chr '[' ∉ t ∧ chr ',' ∉ t := by
  have hdigits : ∀ ds : List UInt8, (∀ b ∈ ds, isdigit b = true) →
      chr '[' ∉ ds ∧ chr ',' ∉ ds := fun ds hds =>
    ⟨fun hmem => absurd (hds _ hmem) (by decide), fun hmem => absurd (hds _ hmem) (by decide)⟩
  cases h with
  | pos hne hds => exact hdigits _ hds
  | neg hne hds =>
      obtain ⟨hopen, hcomma⟩ := hdigits _ hds
      simp only [List.mem_cons, not_or]
      exact ⟨⟨by decide, hopen⟩, by decide, hcomma⟩

theorem scanText_isDecimal {m : Nat} {t : List UInt8} {v : Int} (h : IsDecimal t v)
    (hlen : t.length < 10) (pArray : Buf Int m) (iMaxArrayLen : Nat) :
    scanText t pArray iMaxArrayLen = some (1, pArray.write 0 [v]) := by
  obtain ⟨hopen, hcomma⟩ := not_mem_isDecimal h
  rw [scanText, if_neg hopen, upto_of_not_mem hcomma, if_pos hlen, atoiStr_of_isDecimal h]

theorem intAt_write {n : Nat} (hn : 0 < n) (b : Buf Int n) (v : Int) :
    intAt (b.write 0 [v]) 0 = v := by
  rw [intAt, Buf.elems_write b (by rw [List.length_singleton]; omega)]
  rfl

/-- **What is stored.** -/
theorem store_set {c : Scalar} {v : Int} {fr : Frame} {stk : Stack} (h : Sets c v fr stk)
    (p : SavePara) : fr.store stk p = c.write v p := by
  rw [Frame.store, h.cmd, c.setCases_set]
  simp only [proSet_eq, h.text, scanText_isDecimal h.decimal h.short, Option.map_some, firstValue]
  rw [intAt_write (by decide), intAt_write (by decide)]

/-! ## What happens in between -/

/-- A frame that names another field leaves this one. -/
theorem changesOnly_frame (f : Frame) (stk : Stack) (p : SavePara) :
    f.cmd.ChangesOnly p (f.store stk p) := by
  have hself : f.cmd.ChangesOnly p p := by
    unfold Cmd.ChangesOnly
    cases f.cmd <;> rfl
  unfold Frame.store
  split
  · next handler store hcase =>
    split
    · exact changesOnly_store hcase _ _
    · exact hself
  · exact hself

/-- The event executes no set command of the parameter. -/
def Scalar.Spared (c : Scalar) (e : Event) : Prop :=
  ∀ f stk, Command.exec f stk ∈ e.commands → f.cmd ≠ c.set

/-- The step is no boot that finds the first-use marker. -/
def RecordKept (s : Server) (e : Event) : Prop :=
  Command.reboot ∈ e.commands → isFirstUse s.cam.SaveParaList = false

/-- **One step** leaves a parameter that is not set, or boots with the defaults. -/
theorem value_step {c : Scalar} {s s' : Server} {e : Event} (hok : CamOk s.cam)
    (hspared : c.Spared e) (hstep : step s e = some s') :
    (RecordKept s e → c.value s'.cam.SaveParaList = c.value s.cam.SaveParaList) ∧
    (¬ RecordKept s e → c.value s'.cam.SaveParaList = c.value DefaultList) := by
  unfold Scalar.Spared at hspared
  unfold RecordKept
  cases commandStep hok hstep with
  | idle he hrecord _ =>
      rw [he, hrecord]
      exact ⟨fun _ => rfl, fun h => absurd (by simp) h⟩
  | exec f stk he hcam =>
      rw [he] at hspared ⊢
      rw [hcam, SaveParaList_execFrame hok]
      refine ⟨fun _ => ?_, fun h => absurd (by simp) h⟩
      exact c.value_of_changesOnly (changesOnly_frame f stk _) (hspared f stk List.mem_cons_self)
  | reboot mem he hs =>
      rw [he, hs, SaveParaList_boot, effective_eq, hok.record, bootRule]
      simp only [List.mem_cons, true_or, forall_const, Bool.not_eq_false]
      refine ⟨fun h => ?_, fun h => ?_⟩
      · rw [if_neg (by simp [h])]
      · rw [if_pos h]

/-- **A run** that does not set the parameter leaves it, or ends with the default when
some boot found the first-use marker. -/
theorem value_of_between {c : Scalar} {s s' : Server} {es : List Event} (hok : CamOk s.cam)
    (h : RunBy step (fun _ e => c.Spared e) s es s') :
    (Steps step RecordKept s es → c.value s'.cam.SaveParaList = c.value s.cam.SaveParaList) ∧
    (¬ Steps step RecordKept s es → c.value s'.cam.SaveParaList = c.value DefaultList) := by
  obtain ⟨hkept, hlost⟩ := h.last_iff (Q := RecordKept)
    (I := fun t => CamOk t.cam ∧ c.value t.cam.SaveParaList = c.value s.cam.SaveParaList)
    (B := fun t => CamOk t.cam ∧ c.value t.cam.SaveParaList = c.value DefaultList)
    (fun t e t' ht hspared hk ht' => ⟨camOk_step t e t' ht.1 ht',
      ((value_step ht.1 hspared ht').1 hk).trans ht.2⟩)
    (fun t e t' ht hspared hk ht' => ⟨camOk_step t e t' ht.1 ht',
      (value_step ht.1 hspared ht').2 hk⟩)
    (fun t e t' ht hspared ht' => by
      refine ⟨camOk_step t e t' ht.1 ht', ?_⟩
      by_cases hk : RecordKept t e
      · exact ((value_step ht.1 hspared ht').1 hk).trans ht.2
      · exact (value_step ht.1 hspared ht').2 hk)
    ⟨hok, rfl⟩
  exact ⟨fun hk => (hkept hk).2, fun hk => (hlost hk).2⟩

/-- The field behind the set command. -/
theorem value_of_set {c : Scalar} {v : Int} {s s₁ : Server} {chain : List (List UInt8)}
    {stk : Stack} {fr : Frame} (hok : CamOk s.cam)
    (hset : parseFrame (recvBuf chain) = some fr) (hsets : Sets c v fr stk)
    (hstep : step s (.recvd chain stk) = some s₁) :
    (c.value s₁.cam.SaveParaList : Int) = v % 2 ^ c.bits := by
  have hcommands : (Event.recvd chain stk).commands = [.exec fr stk] := by
    rw [Event.commands, hset]
  rw [(record_step s _ s₁ hok hstep).2, hcommands, ← c.value_write v s.cam.SaveParaList,
    ← store_set hsets]
  rfl

/-! ## Reading back -/

/-- A number is its own remainder when it is in range. -/
theorem emod_eq_self_iff {v m : Int} (hm : 0 < m) : v % m = v ↔ 0 ≤ v ∧ v < m := by
  constructor
  · intro h
    rw [← h]
    exact ⟨Int.emod_nonneg v (by omega), Int.emod_lt_of_pos v hm⟩
  · exact fun h => Int.emod_eq_of_lt h.1 h.2

/-- What the client reads is what it has set, or the parameter was left as it was. -/
def NotAltered (c : Scalar) (v : Int) (s s₁ : Server) (reads : List (List UInt8)) : Prop :=
  reads = [valueReply c.get (decimalInt v)] ∨
    c.value s₁.cam.SaveParaList = c.value s.cam.SaveParaList

/-- **Set, then get**: a number that a client has set is what it reads later, or the set
command left the parameter as it was, exactly when the number is equal to the old
value modulo the width of the field, or fits the field and either no boot in
between found the first-use marker or it is the default. -/
theorem set_get_iff {f : Flash} {mem : FrameBuf → Nat → BitVec 32} {es fs : List Event}
    {s s₁ s₂ : Server} {c : Scalar} {v : Int} {ctx : RecvCtx} {chain chain' : List (List UInt8)}
    {stk stk' : Stack} {fr fr' : Frame} (hrun : run step (boot f mem) es = some s)
    (hset : parseFrame (recvBuf chain) = some fr) (hsets : Sets c v fr stk)
    (hstep : step s (.recvd chain stk) = some s₁)
    (hbetween : RunBy step (fun _ e => c.Spared e) s₁ fs s₂) (hpc : s₂.pc = .recv ctx)
    (hget : parseFrame (recvBuf chain') = some fr') (hcmd : fr'.cmd = c.get)
    (frames : List (List (BitVec 32))) :
    NotAltered c v s s₁ (replies s₂ chain' stk' frames) ↔
      v % 2 ^ c.bits = c.value s.cam.SaveParaList ∨ (0 ≤ v ∧ v < 2 ^ c.bits ∧
        (Steps step RecordKept s₁ fs ∨ v = c.value DefaultList)) := by
  have hok := camOk_run hrun
  have hok₁ := camOk_step s _ s₁ hok hstep
  have hok₂ : CamOk s₂.cam :=
    hbetween.invariant (I := fun t => CamOk t.cam) (fun t e t' ht _ => camOk_step t e t' ht) hok₁
  have hstored := value_of_set hok hset hsets hstep
  obtain ⟨hkept, hlost⟩ := value_of_between hok₁ hbetween
  have hreads : replies s₂ chain' stk' frames = [valueReply c.get (decimalInt v)] ↔
      (c.value s₂.cam.SaveParaList : Int) = v := by
    rw [replies_get hok₂ hpc hget (by rw [hcmd, c.isSet_get]), hcmd, c.valueText_get,
      ← decimalInt_natCast, List.singleton_inj, valueReply_inj, decimalInt_inj]
  have hleft : c.value s₁.cam.SaveParaList = c.value s.cam.SaveParaList ↔
      v % 2 ^ c.bits = c.value s.cam.SaveParaList := by
    rw [← hstored, Int.natCast_inj]
  unfold NotAltered
  rw [hleft, hreads, or_comm]
  by_cases hk : Steps step RecordKept s₁ fs
  · rw [hkept hk, hstored, emod_eq_self_iff (by positivity)]
    simp [hk]
  · have hdefault : c.value DefaultList < 2 ^ c.bits := by cases c <;> decide
    rw [hlost hk]
    refine or_congr_right ⟨fun hv => ?_, fun hv => (hv.2.2.resolve_left hk).symm⟩
    rw [← hv]
    exact ⟨Int.natCast_nonneg _, by exact_mod_cast hdefault, Or.inr rfl⟩

/-- From the reply to a set command to the next message. -/
def nextRecv : List Event := [.ret .ERR_OK, .tick, .tick, .tick]

/-- No command is executed there. -/
theorem commands_nextRecv : ∀ e ∈ nextRecv, e.commands = [] := by
  intro e he
  simp only [nextRecv, List.mem_cons, List.not_mem_nil, or_false] at he
  rcases he with rfl | rfl | rfl | rfl <;> rfl

theorem spared_nextRecv (c : Scalar) : ∀ e ∈ nextRecv, c.Spared e := by
  intro e he f stk hmem
  rw [commands_nextRecv e he] at hmem
  cases hmem

/-- The rate set to 60. -/
theorem set_get_rate60 : ∃ s s₁ s₂ : Server,
    run step (boot defaultFlash fun _ _ => 0) firstRecv = some s ∧
    step s (.recvd [frameBytes .setrat ['6', '0']] zeroStack) = some s₁ ∧
    run step s₁ nextRecv = some s₂ ∧
    NotAltered .rate 60 s s₁ (replies s₂ [(frameOne .getrat).bytes] zeroStack []) := by
  have hend : ((run step (boot defaultFlash fun _ _ => 0) firstRecv).bind fun s =>
      (step s (.recvd [frameBytes .setrat ['6', '0']] zeroStack)).bind fun s₁ =>
        (run step s₁ nextRecv).map fun s₂ => s₂.pc) = some (.recv .idle) := by decide +kernel
  obtain ⟨s, s₁, s₂, hs, hs₁, hs₂, hpc⟩ := exists_of_stretches hend
  refine ⟨s, s₁, s₂, hs, hs₁, hs₂, ?_⟩
  have hset : parseFrame (recvBuf [frameBytes .setrat ['6', '0']]) =
      some ⟨Buf.fill 4 0, .setrat, ascii ['6', '0'], by decide, by decide, by decide⟩ := by
    decide +kernel
  have hsets : Sets .rate 60 ⟨Buf.fill 4 0, .setrat, ascii ['6', '0'], by decide, by decide,
      by decide⟩ zeroStack :=
    ⟨rfl, by decide, isDecimal_decimalInt 60, by decide⟩
  have hget : parseFrame (recvBuf [(frameOne .getrat).bytes]) = some (frameOne .getrat) := by
    decide +kernel
  have hkept : Steps step RecordKept s₁ nextRecv :=
    steps_of_steps (I := fun _ => True) (Q := fun _ e => e.commands = [])
      (fun _ _ _ _ _ _ => trivial) (fun _ _ _ hnone hboot => by rw [hnone] at hboot; cases hboot)
      trivial ((steps_iff_forall_mem hs₂).mpr commands_nextRecv)
  exact (set_get_iff hs hset hsets hs₁
    ⟨hs₂, (steps_iff_forall_mem hs₂).mpr (spared_nextRecv .rate)⟩ hpc hget rfl []).mpr
    (Or.inr ⟨by decide, by decide, Or.inl hkept⟩)

/-- The rate set to 300 is read back as 44. -/
theorem altered_rate300 :
    ¬ ∀ (f : Flash) (mem : FrameBuf → Nat → BitVec 32) (es fs : List Event) (s s₁ s₂ : Server)
      (c : Scalar) (v : Int) (ctx : RecvCtx) (chain chain' : List (List UInt8)) (stk stk' : Stack)
      (fr fr' : Frame), run step (boot f mem) es = some s →
        parseFrame (recvBuf chain) = some fr → Sets c v fr stk →
        step s (.recvd chain stk) = some s₁ → RunBy step (fun _ e => c.Spared e) s₁ fs s₂ →
        s₂.pc = .recv ctx → parseFrame (recvBuf chain') = some fr' → fr'.cmd = c.get →
        NotAltered c v s s₁ (replies s₂ chain' stk' []) := by
  intro h
  have hend : ((run step (boot defaultFlash fun _ _ => 0) firstRecv).bind fun s =>
      (step s (.recvd [frameBytes .setrat ['3', '0', '0']] zeroStack)).bind fun s₁ =>
        (run step s₁ nextRecv).map fun s₂ => (s.cam.SaveParaList.rate,
          s₁.cam.SaveParaList.rate, s₂.pc,
          decide (replies s₂ [(frameOne .getrat).bytes] zeroStack [] =
            [valueReply .getrat (decimalInt 300)]))) =
      some (30, 44, .recv .idle, false) := by decide +kernel
  obtain ⟨s, s₁, s₂, hs, hs₁, hs₂, hr⟩ := exists_of_stretches hend
  simp only [Prod.mk.injEq] at hr
  obtain ⟨hold, hnew, hpc, hreply⟩ := hr
  have hset : parseFrame (recvBuf [frameBytes .setrat ['3', '0', '0']]) =
      some ⟨Buf.fill 4 0, .setrat, ascii ['3', '0', '0'], by decide, by decide, by decide⟩ := by
    decide +kernel
  have hsets : Sets .rate 300 ⟨Buf.fill 4 0, .setrat, ascii ['3', '0', '0'], by decide, by decide,
      by decide⟩ zeroStack :=
    ⟨rfl, by decide, isDecimal_decimalInt 300, by decide⟩
  have hget : parseFrame (recvBuf [(frameOne .getrat).bytes]) = some (frameOne .getrat) := by
    decide +kernel
  rcases h _ _ _ _ _ _ _ .rate 300 _ _ _ _ zeroStack _ _ hs hset hsets hs₁
    ⟨hs₂, (steps_iff_forall_mem hs₂).mpr (spared_nextRecv .rate)⟩ hpc hget rfl with hread | hkeep
  · exact of_decide_eq_false hreply hread
  · simp only [Scalar.value, hold, hnew] at hkeep
    revert hkeep
    decide

end NetCamera
