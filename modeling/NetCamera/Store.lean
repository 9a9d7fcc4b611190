import NetCamera.Flash

/-!
# NetCamera.Store

The parameter store: saving the record to `FLASH_SAVE_ADDR`, loading it, and
the boot rule of `tcp_server_thread`, which takes a record whose `mode` and
`cap` are both `0xff` for blank flash and replaces it by `DefaultList`.

The second half is about power cuts.  A save erases and then programs five
words; `crash_words` says what those words hold after any number of passes of
the writer, and the theorems after it what the next boot makes of them.
-/

namespace NetCamera

open NorFlash

/-! ## Saving and loading -/

/-- `STMFLASH_Write(FLASH_SAVE_ADDR, (u32 *)&SaveParaList, ...)`. -/
def saveList (f : Flash) (m : ParaRam) : Flash := STMFLASH_Write f FLASH_SAVE_ADDR m.words

/-- `STMFLASH_Read(FLASH_SAVE_ADDR, (u32 *)&SaveParaList, ...)`. -/
def loadList (f : Flash) : ParaRam := ParaRam.load (STMFLASH_Read f FLASH_SAVE_ADDR paraWords)

/-- The record that stands on flash. -/
def flashRecord (f : Flash) : SavePara := (loadList f).SaveParaList

/-- The first-use test of `tcp_server_thread`. -/
def isFirstUse (p : SavePara) : Bool := p.mode == 0xff && p.cap == 0xff

/-- The record a boot puts into effect when it reads `p` from flash. -/
def bootRule (p : SavePara) : SavePara := if isFirstUse p then DefaultList else p

/-- The parameter initialisation of `tcp_server_thread`: read the record, and on
first use take the defaults and save them. -/
def bootList (f : Flash) : ParaRam × Flash :=
  let m := loadList f
  if isFirstUse m.SaveParaList then
    let m := { m with SaveParaList := DefaultList }
    (m, saveList f m)
  else (m, f)

/-- The record in effect after a boot from `f`. -/
def effective (f : Flash) : SavePara := (bootList f).1.SaveParaList

/-- The save area is a word-aligned range of main flash. -/
theorem saveArea_inMainFlash : WriteArgs.InMainFlash ⟨FLASH_SAVE_ADDR, paraWords⟩ where
  base_le := by decide
  aligned := by decide
  le_end := by decide

/-- A saved area is loaded back. -/
@[simp] theorem loadList_saveList (f : Flash) (m : ParaRam) : loadList (saveList f m) = m := by
  have h := saveArea_inMainFlash
  rw [← m.length_words] at h
  rw [loadList, saveList, ← m.length_words, STMFLASH_Read_Write h, ParaRam.load_words]

theorem effective_eq (f : Flash) : effective f = bootRule (flashRecord f) := by
  rw [effective, bootList, bootRule, flashRecord]
  split <;> rfl

/-- After the boot sequence RAM and flash hold the same area. -/
theorem loadList_bootList (f : Flash) : loadList (bootList f).2 = (bootList f).1 := by
  rw [bootList]
  split
  · simp
  · rfl

/-- The boot rule keeps a record that is not the first-use marker. -/
theorem bootRule_eq_self_iff (p : SavePara) :
    bootRule p = p ↔ ¬ (p.mode = 0xff ∧ p.cap = 0xff) := by
  unfold bootRule
  by_cases h : p.mode = 0xff ∧ p.cap = 0xff
  · have hm : isFirstUse p = true := by simp [isFirstUse, h.1, h.2]
    rw [if_pos hm]
    refine ⟨fun heq => absurd h.1 ?_, fun hn => absurd h hn⟩
    rw [← heq]
    decide
  · have hm : isFirstUse p ≠ true := by
      simpa [isFirstUse] using h
    rw [if_neg hm]
    exact ⟨fun _ => h, fun _ => rfl⟩

/-! ## A power cut during a save -/

/-- The writer of a save of `m`, after `t` of its passes. -/
def saveRun (f : Flash) (m : ParaRam) (t : Nat) : Writer :=
  writeRun ⟨FLASH_SAVE_ADDR, paraWords⟩ (fun i => m.words.getD i 0) t
    (writeStart ⟨FLASH_SAVE_ADDR, paraWords⟩ f)

/-- How many words a writer has programmed. -/
def Writer.written (w : Writer) : Nat :=
  match w.pc with
  | .scan _ => 0
  | .wait => 0
  | .program k => k
  | .done => paraWords

/-- The record of which the first `k` words were programmed on erased flash. -/
def tornRecord (m : ParaRam) (k : Nat) : SavePara :=
  (ParaRam.load (m.words.take k ++ List.replicate (paraWords - k) blank)).SaveParaList

/-- The words of the save area share one sector. -/
theorem saveArea_sector {i j : Nat} (hi : i < paraWords) (hj : j < paraWords) :
    sectors.mem (STMFLASH_GetFlashSector (FLASH_SAVE_ADDR + 4 * i))
      (FLASH_SAVE_ADDR + 4 * j) = true := by
  have hall : ∀ i < paraWords, ∀ j < paraWords,
      sectors.mem (STMFLASH_GetFlashSector (FLASH_SAVE_ADDR + 4 * i))
        (FLASH_SAVE_ADDR + 4 * j) = true := by decide
  exact hall i hi j hj

/-- Scanning leaves the save area as it was or erases all of it. -/
theorem scrubbed_saveArea (f : Flash) {i : Nat} (hi : i ≤ paraWords) :
    (∀ j < paraWords, scrubbed f FLASH_SAVE_ADDR i (FLASH_SAVE_ADDR + 4 * j) =
      f (FLASH_SAVE_ADDR + 4 * j)) ∨
    (∀ j < paraWords, scrubbed f FLASH_SAVE_ADDR i (FLASH_SAVE_ADDR + 4 * j) = blank) := by
  by_cases h : ∃ m < i, f (FLASH_SAVE_ADDR + 4 * m) ≠ blank
  · obtain ⟨m, hm, hf⟩ := h
    exact Or.inr fun j hj => scrubbed_eq_blank hm hf (saveArea_sector (by omega) hj)
  · refine Or.inl fun j hj => ?_
    by_cases hx : f (FLASH_SAVE_ADDR + 4 * j) = blank
    · unfold scrubbed
      split
      · exact hx.symm
      · rfl
    · rw [scrubbed, if_neg]
      intro hany
      obtain ⟨m, hm, hp⟩ := List.any_eq_true.mp hany
      simp only [Bool.and_eq_true, bne_iff_ne, ne_eq] at hp
      exact h ⟨m, List.mem_range.mp hm, hp.1⟩

/-- The words of the save area while it is scanned. -/
theorem read_scrubbed (f : Flash) {i : Nat} (hi : i ≤ paraWords) :
    STMFLASH_Read (scrubbed f FLASH_SAVE_ADDR i) FLASH_SAVE_ADDR paraWords =
      STMFLASH_Read f FLASH_SAVE_ADDR paraWords ∨
    STMFLASH_Read (scrubbed f FLASH_SAVE_ADDR i) FLASH_SAVE_ADDR paraWords =
      List.replicate paraWords blank := by
  rcases scrubbed_saveArea f hi with h | h
  · exact Or.inl (STMFLASH_Read_congr fun j hj => h j hj)
  · refine Or.inr (STMFLASH_Read_eq List.length_replicate fun j hj => ?_)
    rw [List.length_replicate] at hj
    rw [h j hj, List.getElem_replicate]

/-- The words of the save area with the first `k` programmed over erased flash. -/
theorem read_programN (f : Flash) (m : ParaRam) {k : Nat} (hk : k ≤ paraWords) :
    STMFLASH_Read (programN FLASH_SAVE_ADDR 4 (fun i => m.words.getD i 0) k
      (scrubbed f FLASH_SAVE_ADDR paraWords)) FLASH_SAVE_ADDR paraWords =
      m.words.take k ++ List.replicate (paraWords - k) blank := by
  have hlen : (m.words.take k ++ List.replicate (paraWords - k) (blank : BitVec 32)).length =
      paraWords := by
    rw [List.length_append, List.length_take, List.length_replicate, m.length_words]
    omega
  refine STMFLASH_Read_eq hlen fun i hi => ?_
  rw [hlen] at hi
  by_cases hik : i < k
  · have hget : i < m.words.length := by rw [m.length_words]; omega
    rw [programN_done (by decide) hik (scrubbed_blank saveArea_inMainFlash hi (Nat.le_refl _)),
      List.getElem_append_left (by rw [List.length_take]; omega), List.getElem_take,
      List.getD_eq_getElem?_getD, List.getElem?_eq_getElem hget, Option.getD_some]
  · rw [programN_ahead (by decide) (by omega),
      scrubbed_blank saveArea_inMainFlash hi (Nat.le_refl _),
      List.getElem_append_right (by rw [List.length_take, m.length_words]; omega),
      List.getElem_replicate]

/-- **What a power cut leaves**: the old words or blank ones as long as nothing
was programmed, from then on the first `written` words of the new image over
blank ones. -/
theorem crash_words (f : Flash) (m : ParaRam) (t : Nat) :
    let w := saveRun f m t
    let ws := STMFLASH_Read w.flash FLASH_SAVE_ADDR paraWords
    w.written ≤ paraWords ∧
    ((w.written = 0 ∧ ws = STMFLASH_Read f FLASH_SAVE_ADDR paraWords) ∨
      ws = m.words.take w.written ++ List.replicate (paraWords - w.written) blank) := by
  intro w ws
  have hinv : WriterInv ⟨FLASH_SAVE_ADDR, paraWords⟩ (fun i => m.words.getD i 0) f w :=
    writerInv_run saveArea_inMainFlash (writerInv_start saveArea_inMainFlash) t
  -- nothing programmed: the area is untouched or blank
  have hzero : ∀ i ≤ paraWords, w.flash = scrubbed f FLASH_SAVE_ADDR i → w.written = 0 →
      w.written ≤ paraWords ∧
      ((w.written = 0 ∧ ws = STMFLASH_Read f FLASH_SAVE_ADDR paraWords) ∨
        ws = m.words.take w.written ++ List.replicate (paraWords - w.written) blank) := by
    intro i hi hflash hw
    have hread : ws = STMFLASH_Read (scrubbed f FLASH_SAVE_ADDR i) FLASH_SAVE_ADDR paraWords := by
      rw [← hflash]
    rcases read_scrubbed f hi with h | h
    · exact ⟨by omega, Or.inl ⟨hw, hread.trans h⟩⟩
    · refine ⟨by omega, Or.inr ?_⟩
      rw [hw, hread, h, List.take_zero, List.nil_append, Nat.sub_zero]
  cases hpc : w.pc with
  | scan addrx =>
      have hw : w.written = 0 := by rw [Writer.written, hpc]
      simp only [WriterInv, hpc] at hinv
      obtain ⟨i, hi, -, hflash | ⟨hlt, hflash⟩⟩ := hinv
      · exact hzero i hi hflash hw
      · exact hzero (i + 1) (by omega) hflash hw
  | wait =>
      have hw : w.written = 0 := by rw [Writer.written, hpc]
      simp only [WriterInv, hpc] at hinv
      exact hzero paraWords (Nat.le_refl _) hinv hw
  | program k =>
      have hw : w.written = k := by rw [Writer.written, hpc]
      simp only [WriterInv, hpc] at hinv
      obtain ⟨hk, hflash⟩ := hinv
      rw [hw]
      exact ⟨hk, Or.inr (by rw [← read_programN f m hk, ← hflash])⟩
  | done =>
      have hw : w.written = paraWords := by rw [Writer.written, hpc]
      simp only [WriterInv, hpc] at hinv
      rw [hw]
      exact ⟨Nat.le_refl _, Or.inr (by rw [← read_programN f m (Nat.le_refl _), ← hinv])⟩

/-- A blank save area boots into the defaults. -/
theorem tornRecord_zero (m : ParaRam) : bootRule (tornRecord m 0) = DefaultList := by
  rw [tornRecord, List.take_zero, List.nil_append]
  decide

/-- A fully programmed save area holds the new record. -/
theorem tornRecord_all (m : ParaRam) : tornRecord m paraWords = m.SaveParaList := by
  rw [tornRecord, ← m.length_words, List.take_length, Nat.sub_self, List.replicate_zero,
    List.append_nil, ParaRam.load_words]

/-- **Power cut during a save**: lost before the first word is programmed, the
next boot finds the old record, or an erased area and so the defaults; lost after
the last one, the new record; lost in between, the words programmed so far over
`0xFF` bytes; what it finds goes through the rule for a first use. -/
theorem crash_effective (f : Flash) (m : ParaRam) (t : Nat) :
    let w := saveRun f m t
    (w.written = 0 → effective w.flash = bootRule (flashRecord f) ∨
      STMFLASH_Read w.flash FLASH_SAVE_ADDR paraWords = List.replicate paraWords blank ∧
        effective w.flash = DefaultList) ∧
    (w.written = paraWords → effective w.flash = bootRule m.SaveParaList) ∧
    (0 < w.written → w.written < paraWords →
      effective w.flash = bootRule (tornRecord m w.written)) := by
  intro w
  obtain ⟨hle, hold | hnew⟩ := crash_words f m t
  · obtain ⟨hw, hread⟩ := hold
    have heff : effective w.flash = bootRule (flashRecord f) := by
      rw [effective_eq, flashRecord, flashRecord, loadList, loadList, hread]
    refine ⟨fun _ => Or.inl heff, fun h => ?_, fun h _ => ?_⟩
    · rw [hw] at h
      exact absurd h (by decide)
    · exact absurd hw (Nat.pos_iff_ne_zero.mp h)
  · have heff : effective w.flash = bootRule (tornRecord m w.written) := by
      rw [effective_eq, flashRecord, loadList, hnew, tornRecord]
    refine ⟨fun h => Or.inr ⟨?_, ?_⟩, fun h => ?_, fun _ _ => heff⟩
    · rw [hnew, h, List.take_zero, List.nil_append, Nat.sub_zero]
    · rw [heff, h, tornRecord_zero]
    · rw [heff, h, tornRecord_all]

/-- The defaults, saved on an erased flash. -/
def defaultFlash : Flash := saveList (fun _ => blank) ⟨DefaultList, ⟨0, 0, 0⟩⟩

theorem flashRecord_defaultFlash : flashRecord defaultFlash = DefaultList := by
  rw [flashRecord, defaultFlash, loadList_saveList]

theorem effective_defaultFlash : effective defaultFlash = DefaultList := by
  rw [effective_eq, flashRecord_defaultFlash]
  rfl

/-- A save of two changed fields cut before its last word: the new `rate` comes
with a `pol` that neither record has. -/
theorem crash_mixture :
    ¬ ∀ (f : Flash) (m : ParaRam) (t : Nat),
      let w := saveRun f m t
      effective w.flash = flashRecord f ∨ effective w.flash = m.SaveParaList ∨
        effective w.flash = DefaultList := by
  intro h
  have h12 := h defaultFlash ⟨{ DefaultList with rate := 15, pol := 0 }, ⟨0, 0, 0⟩⟩ 12
  revert h12
  decide +kernel

end NetCamera
