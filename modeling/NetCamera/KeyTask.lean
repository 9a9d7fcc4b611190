import NetCamera.Lib.Run
import NetCamera.Store

/-!
# NetCamera.KeyTask

The factory reset of `key_task` under preemption by the server thread.

`key_task` assigns `DefaultList` to `SaveParaList` word by word, calls
`STMFLASH_Write` with `SaveParaList` itself as the source, and resets the
system.  The server has the higher priority and may run between any two of
these steps; what it does to the shared data is `MT9D111_Greate_Header`'s
`STMFLASH_Read`, which reloads the whole record from flash.

Each of the five words goes through three stages: not yet assigned, assigned in
RAM and still to be programmed, programmed.  `key_word` says how a step of
`key_task` moves one word through them, and the exact condition for the reset
to leave the defaults on flash follows word by word: a reload is harmless
exactly when flash already agrees with the defaults on the words that stand in
RAM at that moment.
-/

namespace NetCamera.KeyTask

open NorFlash Run

/-! ## The two tasks -/

/-- Where the reset of `key_task` stands: `i` words assigned, inside
`STMFLASH_Write`, or past `HAL_NVIC_SystemReset`. -/
inductive Pc where
  | assign (i : Nat)
  | write (p : WritePc)
  | reset
  deriving DecidableEq, Repr

/-- What the two tasks share: the five words from `&SaveParaList` on and the
flash. -/
structure State where
  ram : Nat → BitVec 32
  flash : Flash
  pc : Pc

/-- `key` is one step of `key_task`, `reload` the server running as far as the
read in `MT9D111_Greate_Header`. -/
inductive Event where
  | key
  | reload
  deriving DecidableEq, Repr

/-- The address and length of the save. -/
def saveArgs : WriteArgs := ⟨FLASH_SAVE_ADDR, paraWords⟩

/-- Word `i` of the saved record on flash. -/
def word (f : Flash) (i : Nat) : BitVec 32 := f (FLASH_SAVE_ADDR + 4 * i)

/-- What the assignment stores over `old` as word `i`.  The record ends in the
middle of the last word, whose upper half is another variable and stays. -/
def defaultWord (i : Nat) (old : BitVec 32) : BitVec 32 :=
  if i + 1 < paraWords then (ParaRam.words ⟨DefaultList, ⟨0, 0, 0⟩⟩).getD i 0
  else packWord DefaultList.pol 0 (byteOf old 2) (byteOf old 3)

/-- One step of `key_task`: the next word of `SaveParaList=DefaultList`, the next
pass of `STMFLASH_Write` over the present RAM, or the reset. -/
def key_task (s : State) : Option State :=
  match s.pc with
  | .assign i =>
    some { s with
      ram := fun j => if j = i then defaultWord i (s.ram i) else s.ram j
      pc := if i + 1 < paraWords then .assign (i + 1)
        else .write (writeStart saveArgs s.flash).pc }
  | .write .done => some { s with pc := .reset }
  | .write p =>
    let w := writeStep saveArgs s.ram true ⟨s.flash, p⟩
    some { s with flash := w.flash, pc := .write w.pc }
  | .reset => none

/-- The server's `STMFLASH_Read(FLASH_SAVE_ADDR, (u32 *)&SaveParaList, ...)`. -/
def reload (s : State) : Option State :=
  match s.pc with
  | .reset => none
  | _ => some { s with ram := fun i => if i < paraWords then word s.flash i else s.ram i }

/-- A step of either task. -/
def step (s : State) : Event → Option State
  | .key => key_task s
  | .reload => reload s

/-! ## Agreement with the defaults -/

/-- A value of word `i` that carries the default fields.  Of the last word only
the first byte belongs to the record. -/
def agrees (i : Nat) (v : BitVec 32) : Prop :=
  if i + 1 < paraWords then v = (ParaRam.words ⟨DefaultList, ⟨0, 0, 0⟩⟩).getD i 0
  else byteOf v 0 = DefaultList.pol

instance (i : Nat) (v : BitVec 32) : Decidable (agrees i v) := by
  unfold agrees
  infer_instance

theorem agrees_defaultWord (i : Nat) (old : BitVec 32) : agrees i (defaultWord i old) := by
  by_cases hi : i + 1 < paraWords
  · rw [agrees, defaultWord, if_pos hi, if_pos hi]
  · rw [agrees, defaultWord, if_neg hi, if_neg hi]
    exact (byteOf_packWord _ _ _ _).1

/-- An erased word never carries the defaults. -/
theorem not_agrees_blank {i : Nat} (hi : i < paraWords) : ¬ agrees i blank := by
  have hall : ∀ i < paraWords, ¬ agrees i blank := by decide
  exact hall i hi

/-- The first words of the image are those of the record alone. -/
theorem words_getD_slack (p : SavePara) (s t : Slack) {i : Nat} (hi : i + 1 < paraWords) :
    (ParaRam.words ⟨p, s⟩).getD i 0 = (ParaRam.words ⟨p, t⟩).getD i 0 := by
  have hi' : i < 4 := by
    have : paraWords = 5 := rfl
    omega
  match i, hi' with
  | 0, _ => rfl
  | 1, _ => rfl
  | 2, _ => rfl
  | 3, _ => rfl

/-- The record on flash is `DefaultList` exactly when every word agrees. -/
theorem flashRecord_eq_default_iff (f : Flash) :
    flashRecord f = DefaultList ↔ ∀ i < paraWords, agrees i (word f i) := by
  have hlen := length_STMFLASH_Read f FLASH_SAVE_ADDR paraWords
  have hget : ∀ i < paraWords, (STMFLASH_Read f FLASH_SAVE_ADDR paraWords).getD i 0 = word f i := by
    intro i hi
    rw [List.getD_eq_getElem?_getD, getElem?_STMFLASH_Read f FLASH_SAVE_ADDR hi, Option.getD_some,
      word]
  constructor
  · intro hrec i hi
    -- the words are those of the area they load to
    have hwords := ParaRam.words_load hlen
    have harea : loadList f = ⟨DefaultList, (loadList f).slack⟩ := by
      rw [← hrec, flashRecord]
    unfold loadList at harea
    rw [harea] at hwords
    rw [← hget i hi, ← hwords, agrees]
    split
    · next hlt => exact words_getD_slack _ _ _ hlt
    · next hlt =>
        have hlast : i = 4 := by
          have : paraWords = 5 := rfl
          omega
        subst hlast
        exact (byteOf_packWord _ _ _ _).1
  · intro h
    have h0 := h 0 (by decide)
    have h1 := h 1 (by decide)
    have h2 := h 2 (by decide)
    have h3 := h 3 (by decide)
    have h4 := h 4 (by decide)
    rw [agrees, if_pos (by decide)] at h0 h1 h2 h3
    rw [agrees, if_neg (by decide)] at h4
    rw [flashRecord, loadList, ParaRam.load]
    simp only [hget 0 (by decide), hget 1 (by decide), hget 2 (by decide), hget 3 (by decide),
      hget 4 (by decide), h0, h1, h2, h3, h4]
    decide

/-! ## The stages of a word -/

/-- How far a word of the record has come. -/
inductive Stage where
  | unassigned
  | inRam
  | onFlash
  deriving DecidableEq, Repr

/-- The stage of word `i`. -/
def stage (pc : Pc) (i : Nat) : Stage :=
  match pc with
  | .assign k => if i < k then .inRam else .unassigned
  | .write (.scan _) => .inRam
  | .write .wait => .inRam
  | .write (.program k) => if i < k then .onFlash else .inRam
  | .write .done => .onFlash
  | .reset => .onFlash

/-- The words behind the scan, and later those still to be programmed, are
blank. -/
def Erased (s : State) : Prop :=
  match s.pc with
  | .assign i => i < paraWords
  | .write (.scan addrx) => ∃ i ≤ paraWords, addrx = FLASH_SAVE_ADDR + 4 * i ∧
      ∀ j < i, word s.flash j = blank
  | .write .wait => ∀ j < paraWords, word s.flash j = blank
  | .write (.program k) => k ≤ paraWords ∧ ∀ j < paraWords, k ≤ j → word s.flash j = blank
  | .write .done => True
  | .reset => True

theorem saveArgs_endaddr : saveArgs.endaddr = FLASH_SAVE_ADDR + 4 * paraWords := by decide

theorem writeStart_saveArgs (f : Flash) :
    (writeStart saveArgs f).pc = .scan FLASH_SAVE_ADDR := by
  have h : writeStart saveArgs f = ⟨f, .scan FLASH_SAVE_ADDR⟩ := rfl
  rw [h]

/-- Erasing the sector of one word of the area erases all five. -/
theorem word_eraseSector (f : Flash) {i j : Nat} (hi : i < paraWords) (hj : j < paraWords) :
    word (eraseSector (STMFLASH_GetFlashSector (FLASH_SAVE_ADDR + 4 * i)) f) j = blank :=
  erase_of_mem (saveArea_sector hi hj) f

/-- What a step of `key_task` does to word `i`. -/
inductive WordStep (s s' : State) (i : Nat) : Prop where
  /-- It stays, except that an erase may blank the flash under a word in RAM. -/
  | kept (hst : stage s'.pc i = stage s.pc i) (hram : s'.ram i = s.ram i)
      (hflash : word s'.flash i = word s.flash i ∨
        stage s.pc i = .inRam ∧ word s'.flash i = blank)
  /-- It is assigned its default. -/
  | assigned (hold : stage s.pc i = .unassigned) (hnew : stage s'.pc i = .inRam)
      (hval : agrees i (s'.ram i))
  /-- It is programmed as it stands in RAM. -/
  | programmed (hold : stage s.pc i = .inRam) (hnew : stage s'.pc i = .onFlash)
      (hval : word s'.flash i = s.ram i)

/-- What `key_task` does from one state to the next, on the whole record. -/
def RecordStep (s s' : State) : Prop := Erased s' ∧ ∀ i < paraWords, WordStep s s' i

/-- The state after a pass of the writer that stands at `p`. -/
def pass (s : State) (p : WritePc) : State :=
  let w := writeStep saveArgs s.ram true ⟨s.flash, p⟩
  { s with flash := w.flash, pc := .write w.pc }

/-- The scan erases the sector of a word that is not blank, or moves on. -/
theorem pass_scan {s : State} {k : Nat} (hpc : s.pc = .write (.scan (FLASH_SAVE_ADDR + 4 * k)))
    (hk : k ≤ paraWords) (hblank : ∀ j < k, word s.flash j = blank) :
    RecordStep s (pass s (.scan (FLASH_SAVE_ADDR + 4 * k))) := by
  have hst : ∀ i, stage s.pc i = .inRam := fun i => by rw [hpc]; rfl
  simp only [RecordStep, pass, writeStep, saveArgs_endaddr, STMFLASH_ReadWord]
  by_cases hlt : FLASH_SAVE_ADDR + 4 * k < FLASH_SAVE_ADDR + 4 * paraWords
  · have hkn : k < paraWords := by omega
    rw [if_pos hlt]
    by_cases hb : s.flash (FLASH_SAVE_ADDR + 4 * k) = blank
    · rw [if_neg (by rw [← blank_eq]; exact fun hne => hne hb)]
      refine ⟨⟨k + 1, hkn, by omega, fun j hj => ?_⟩,
        fun i _ => .kept (hst i).symm rfl (Or.inl rfl)⟩
      by_cases hjk : j = k
      · rw [hjk]; exact hb
      · exact hblank j (by omega)
    · rw [if_pos (by rw [← blank_eq]; exact hb), if_pos trivial]
      refine ⟨⟨k, hk, rfl, fun j hj => word_eraseSector _ hkn (by omega)⟩, fun i hi => ?_⟩
      exact .kept (hst i).symm rfl (Or.inr ⟨hst i, word_eraseSector _ hkn hi⟩)
  · have hkn : k = paraWords := by omega
    subst hkn
    rw [if_neg hlt]
    exact ⟨hblank, fun i _ => .kept (hst i).symm rfl (Or.inl rfl)⟩

/-- The wait moves on to the program loop. -/
theorem pass_wait {s : State} (hpc : s.pc = .write .wait)
    (hblank : ∀ j < paraWords, word s.flash j = blank) : RecordStep s (pass s .wait) := by
  have hst : ∀ i, stage s.pc i = .inRam := fun i => by rw [hpc]; rfl
  exact ⟨⟨Nat.zero_le _, fun j hj _ => hblank j hj⟩,
    fun i _ => .kept (hst i).symm rfl (Or.inl rfl)⟩

/-- A pass of the program loop programs its word, or leaves the loop. -/
theorem pass_program {s : State} {k : Nat} (hpc : s.pc = .write (.program k))
    (hk : k ≤ paraWords) (hblank : ∀ j < paraWords, k ≤ j → word s.flash j = blank) :
    RecordStep s (pass s (.program k)) := by
  have haddr : saveArgs.WriteAddr = FLASH_SAVE_ADDR := rfl
  simp only [RecordStep, pass, writeStep, saveArgs_endaddr, haddr]
  by_cases hlt : FLASH_SAVE_ADDR + 4 * k < FLASH_SAVE_ADDR + 4 * paraWords
  · have hkn : k < paraWords := by omega
    have hother : ∀ j, j ≠ k →
        word (program (FLASH_SAVE_ADDR + 4 * k) (s.ram k) s.flash) j = word s.flash j := by
      intro j hj
      exact program_other (by omega) _
    rw [if_pos hlt, if_pos trivial]
    refine ⟨⟨hkn, fun j hj hkj => ?_⟩, fun i hi => ?_⟩
    · rw [hother j (by omega)]
      exact hblank j hj (by omega)
    · by_cases hik : i = k
      · subst hik
        refine .programmed (by simp [stage, hpc]) (by simp [stage]) ?_
        exact program_self (f := s.flash) (hblank i hi (Nat.le_refl i)) _
      · refine .kept ?_ rfl (Or.inl (hother i hik))
        simp only [stage, hpc]
        split <;> split <;> first | rfl | omega
  · have hkn : k = paraWords := by omega
    subst hkn
    rw [if_neg hlt]
    refine ⟨trivial, fun i hi => .kept ?_ rfl (Or.inl rfl)⟩
    simp [stage, hpc, hi]

/-- The assignment of the next word. -/
theorem assign_word {s s' : State} {k : Nat} (hpc : s.pc = .assign k) (hk : k < paraWords)
    (hstep : key_task s = some s') : RecordStep s s' := by
  simp only [key_task, hpc, Option.some.injEq] at hstep
  subst hstep
  have hword {pc' : Pc} (hsame : ∀ i < paraWords, i ≠ k → stage pc' i = stage (.assign k) i)
      (hnew : stage pc' k = .inRam) {i : Nat} (hi : i < paraWords) :
      WordStep s ⟨fun j => if j = k then defaultWord k (s.ram k) else s.ram j, s.flash, pc'⟩ i := by
    by_cases hik : i = k
    · subst hik
      refine .assigned (by simp [stage, hpc]) hnew ?_
      simp only [if_true]
      exact agrees_defaultWord i _
    · exact .kept (by rw [hpc, hsame i hi hik]) (if_neg hik) (Or.inl rfl)
  by_cases hlt : k + 1 < paraWords
  · rw [if_pos hlt]
    refine ⟨hlt, fun i hi => hword (fun i _ hik => ?_) (by simp [stage]) hi⟩
    simp only [stage]
    split <;> split <;> first | rfl | omega
  · rw [if_neg hlt, writeStart_saveArgs]
    refine ⟨⟨0, Nat.zero_le _, rfl, fun j hj => absurd hj (Nat.not_lt_zero j)⟩, fun i hi => ?_⟩
    refine hword (fun i hi hik => ?_) rfl hi
    simp only [stage]
    rw [if_pos (by omega)]

/-- **One step of `key_task`, word by word.** -/
theorem key_word {s s' : State} (hs : Erased s) (hstep : key_task s = some s') :
    RecordStep s s' := by
  unfold Erased at hs
  cases hpc : s.pc with
  | assign k =>
      rw [hpc] at hs
      exact assign_word hpc hs hstep
  | write p =>
      rw [hpc] at hs
      cases p with
      | scan addrx =>
          obtain ⟨k, hk, haddr, hblank⟩ := hs
          subst haddr
          simp only [key_task, hpc, Option.some.injEq] at hstep
          subst hstep
          exact pass_scan hpc hk hblank
      | wait =>
          simp only [key_task, hpc, Option.some.injEq] at hstep
          subst hstep
          exact pass_wait hpc hs
      | program k =>
          simp only [key_task, hpc, Option.some.injEq] at hstep
          subst hstep
          exact pass_program hpc hs.1 hs.2
      | done =>
          simp only [key_task, hpc, Option.some.injEq] at hstep
          subst hstep
          exact ⟨trivial, fun i _ => .kept (by rw [hpc]; rfl) rfl (Or.inl rfl)⟩
  | reset => simp [key_task, hpc] at hstep

/-- A reload moves nothing but the RAM. -/
theorem reload_eq {s s' : State} (h : reload s = some s') :
    s' = { s with ram := fun i => if i < paraWords then word s.flash i else s.ram i } := by
  cases hpc : s.pc <;> simp only [reload, hpc] at h
  · exact (Option.some.inj h).symm
  · exact (Option.some.inj h).symm
  · cases h

/-! ## Good and spoiled words -/

/-- Word `i` carries its default in the place that counts at its stage. -/
def GoodWord (s : State) (i : Nat) : Prop :=
  match stage s.pc i with
  | .unassigned => True
  | .inRam => agrees i (s.ram i)
  | .onFlash => agrees i (word s.flash i)

/-- Word `i` will not carry its default: neither RAM nor flash has it any more. -/
def SpoiledWord (s : State) (i : Nat) : Prop :=
  match stage s.pc i with
  | .unassigned => False
  | .inRam => ¬ agrees i (s.ram i) ∧ ¬ agrees i (word s.flash i)
  | .onFlash => ¬ agrees i (word s.flash i)

/-- A reload does no harm when flash agrees with the defaults on every word that
stands in RAM, assigned and not yet programmed. -/
def ReloadHarmless (s : State) (e : Event) : Prop :=
  e = .reload → ∀ i < paraWords, stage s.pc i = .inRam → agrees i (word s.flash i)

/-- A step of `key_task` keeps a word good. -/
theorem good_key {s s' : State} (hs : Erased s) (hstep : key_task s = some s') {i : Nat}
    (hi : i < paraWords) (hgood : GoodWord s i) : GoodWord s' i := by
  cases (key_word hs hstep).2 i hi with
  | kept hst hram hflash =>
      simp only [GoodWord, hst] at hgood ⊢
      cases hcur : stage s.pc i <;> simp only [hcur] at hgood ⊢
      · rw [hram]; exact hgood
      · rcases hflash with hflash | ⟨hcon, -⟩
        · rw [hflash]; exact hgood
        · rw [hcur] at hcon; cases hcon
  | assigned _ hnew hval =>
      simp only [GoodWord, hnew]
      exact hval
  | programmed hold hnew hval =>
      simp only [GoodWord, hold] at hgood
      simp only [GoodWord, hnew, hval]
      exact hgood

/-- A step of `key_task` does not mend a spoiled word. -/
theorem spoiled_key {s s' : State} (hs : Erased s) (hstep : key_task s = some s') {i : Nat}
    (hi : i < paraWords) (hbad : SpoiledWord s i) : SpoiledWord s' i := by
  cases (key_word hs hstep).2 i hi with
  | kept hst hram hflash =>
      simp only [SpoiledWord, hst] at hbad ⊢
      cases hcur : stage s.pc i <;> simp only [hcur] at hbad ⊢
      · rw [hram]
        refine ⟨hbad.1, ?_⟩
        rcases hflash with hflash | ⟨-, hflash⟩
        · rw [hflash]; exact hbad.2
        · rw [hflash]; exact not_agrees_blank hi
      · rcases hflash with hflash | ⟨hcon, -⟩
        · rw [hflash]; exact hbad
        · rw [hcur] at hcon; cases hcon
  | assigned hold _ _ => simp only [SpoiledWord, hold] at hbad
  | programmed hold hnew hval =>
      simp only [SpoiledWord, hold] at hbad
      simp only [SpoiledWord, hnew, hval]
      exact hbad.1

/-- All words are good. -/
def Good (s : State) : Prop := Erased s ∧ ∀ i < paraWords, GoodWord s i

/-- Some word is spoiled. -/
def Spoiled (s : State) : Prop := Erased s ∧ ∃ i < paraWords, SpoiledWord s i

/-- A reload keeps what `Erased` says. -/
theorem erased_reload {s s' : State} (hs : Erased s) (hstep : reload s = some s') :
    Erased s' := by
  rw [reload_eq hstep]
  exact hs

theorem good_step (s : State) (e : Event) (s' : State) (hs : Good s) (hq : ReloadHarmless s e)
    (hstep : step s e = some s') : Good s' := by
  cases e with
  | key => exact ⟨(key_word hs.1 hstep).1, fun i hi => good_key hs.1 hstep hi (hs.2 i hi)⟩
  | reload =>
      refine ⟨erased_reload hs.1 hstep, fun i hi => ?_⟩
      have hgood := hs.2 i hi
      rw [reload_eq hstep]
      simp only [GoodWord, if_pos hi] at hgood ⊢
      cases hcur : stage s.pc i <;> simp only [hcur] at hgood ⊢
      · exact hq rfl i hi hcur
      · exact hgood

theorem spoiled_break (s : State) (e : Event) (s' : State) (hs : Good s)
    (hq : ¬ ReloadHarmless s e) (hstep : step s e = some s') : Spoiled s' := by
  cases e with
  | key => exact absurd (fun h => by cases h) hq
  | reload =>
      simp only [ReloadHarmless, forall_const, Classical.not_forall] at hq
      obtain ⟨i, hi, hcur, hbad⟩ := hq
      refine ⟨erased_reload hs.1 hstep, i, hi, ?_⟩
      rw [reload_eq hstep]
      simp only [SpoiledWord, hcur, if_pos hi]
      exact ⟨hbad, hbad⟩

theorem spoiled_step (s : State) (e : Event) (s' : State) (hs : Spoiled s)
    (hstep : step s e = some s') : Spoiled s' := by
  obtain ⟨herased, i, hi, hbad⟩ := hs
  cases e with
  | key => exact ⟨(key_word herased hstep).1, i, hi, spoiled_key herased hstep hi hbad⟩
  | reload =>
      refine ⟨erased_reload herased hstep, i, hi, ?_⟩
      rw [reload_eq hstep]
      simp only [SpoiledWord, if_pos hi] at hbad ⊢
      cases hcur : stage s.pc i <;> simp only [hcur] at hbad ⊢
      · exact ⟨hbad.2, hbad.2⟩
      · exact hbad

/-- The start of a reset, over any RAM and any flash. -/
def start (ram : Nat → BitVec 32) (f : Flash) : State := ⟨ram, f, .assign 0⟩

theorem good_start (ram : Nat → BitVec 32) (f : Flash) : Good (start ram f) :=
  ⟨by simp only [Erased, start]; decide, fun i _ => by simp [GoodWord, stage, start]⟩

/-- **Factory reset under preemption**: in every interleaving, the reset leaves
`DefaultList` on flash exactly when every reload on the way was harmless. -/
theorem factory_reset_iff {ram : Nat → BitVec 32} {f : Flash} {es : List Event} {s : State}
    (hrun : run step (start ram f) es = some s) (hreset : s.pc = .reset) :
    flashRecord s.flash = DefaultList ↔ Steps step ReloadHarmless (start ram f) es := by
  obtain ⟨hgood, hbad⟩ :=
    last_iff_steps good_step spoiled_break spoiled_step (good_start ram f) hrun
  rw [flashRecord_eq_default_iff]
  constructor
  · intro hall
    refine Classical.byContradiction fun hsteps => ?_
    obtain ⟨-, i, hi, hspoiled⟩ := hbad hsteps
    simp only [SpoiledWord, hreset, stage] at hspoiled
    exact hspoiled (hall i hi)
  · intro hsteps i hi
    have hword := (hgood hsteps).2 i hi
    simpa only [GoodWord, hreset, stage] using hword

/-- An undisturbed reset on an erased flash, step by step to its end. -/
def undisturbed : List Event := List.replicate 19 .key

/-- The server sends an image right after the first word was programmed. -/
def disturbed : List Event := List.replicate 14 .key ++ [.reload] ++ List.replicate 6 .key

theorem factory_reset_undisturbed :
    ∃ s, run step (start (fun _ => 0) (fun _ => blank)) undisturbed = some s ∧
      flashRecord s.flash = DefaultList := by
  have hreset : (run step (start (fun _ => 0) (fun _ => blank)) undisturbed).map (·.pc) =
      some .reset := by decide +kernel
  obtain ⟨s, hrun, hpc⟩ := Option.map_eq_some_iff.mp hreset
  refine ⟨s, hrun, (factory_reset_iff hrun hpc).mpr ?_⟩
  simp [undisturbed, List.replicate, Steps, ReloadHarmless]

/-- The reload takes the four words not yet programmed from erased flash, and the
writer programs them as they are. -/
theorem factory_reset_disturbed :
    ¬ ∀ (ram : Nat → BitVec 32) (f : Flash) (es : List Event) (s : State),
      run step (start ram f) es = some s → s.pc = .reset → flashRecord s.flash = DefaultList := by
  intro h
  have hend : (run step (start (fun _ => 0) defaultFlash) disturbed).map
      (fun s => (s.pc, decide (flashRecord s.flash = DefaultList))) = some (.reset, false) := by
    decide +kernel
  obtain ⟨s, hrun, hs⟩ := Option.map_eq_some_iff.mp hend
  obtain ⟨hpc, hrec⟩ := Prod.mk.inj hs
  exact of_decide_eq_false hrec (h _ _ _ s hrun hpc)

end NetCamera.KeyTask
