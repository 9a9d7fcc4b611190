import NetCamera.Flash

/-!
# NetCamera.FlashWrite

What a call of `STMFLASH_Write` does to main flash, and how often it erases.

`eraseLog` records the sectors that the passes of a call erase, in order.  The
scan looks at a word again behind the erase of its sector; the sector is blank
from then on, as nothing is programmed before the scan is over, so no later pass
finds a reason to erase it (`eraseLog_nodup`).

Reading back gives the buffer, and of the other words only those change that
share a sector with a non-blank word of the range (`write_ok`).
-/

namespace NetCamera

open NorFlash

/-! ## The sectors erased -/

/-- The sector that the next pass erases. -/
def erasedNext (j : WriteArgs) (w : Writer) : Option Nat :=
  match w.pc with
  | .scan addrx =>
    if addrx < j.endaddr ∧ STMFLASH_ReadWord w.flash addrx ≠ 0xFFFFFFFF then
      some (STMFLASH_GetFlashSector addrx)
    else none
  | _ => none

/-- The sectors that `t` passes erase. -/
def eraseLog (j : WriteArgs) (pBuffer : Nat → BitVec 32) : Nat → Writer → List Nat
  | 0, _ => []
  | t + 1, w => (erasedNext j w).toList ++ eraseLog j pBuffer t (writeStep j pBuffer true w)

/-- The whole sector is blank. -/
def Blanked (s : Nat) (f : Flash) : Prop := ∀ x, sectors.mem s x = true → f x = blank

section writer

variable {j : WriteArgs} {f : Flash} {pBuffer : Nat → BitVec 32} {w : Writer}

/-- **A pass of the scan** erases the sector it records, or none. -/
theorem writeStep_scan {addrx : Nat} (hpc : w.pc = .scan addrx) :
    (writeStep j pBuffer true w).flash =
      match erasedNext j w with
      | some s => eraseSector s w.flash
      | none => w.flash := by
  simp only [writeStep, erasedNext, hpc]
  by_cases hlt : addrx < j.endaddr
  · by_cases hw : STMFLASH_ReadWord w.flash addrx ≠ 0xFFFFFFFF
    · rw [if_pos hlt, if_pos hw, if_pos trivial, if_pos ⟨hlt, hw⟩]
    · rw [if_pos hlt, if_neg hw, if_neg fun h => hw h.2]
  · rw [if_neg hlt, if_neg fun h => hlt h.1]

/-- Behind the scan nothing is erased. -/
theorem eraseLog_of_not_scan (h : ∀ addrx, w.pc ≠ .scan addrx) (t : Nat) :
    eraseLog j pBuffer t w = [] := by
  induction t generalizing w with
  | zero => rfl
  | succ t ih =>
      have hnone : erasedNext j w = none := by
        unfold erasedNext
        split
        · next addrx hpc => exact absurd hpc (h addrx)
        · rfl
      have hnext : ∀ addrx, (writeStep j pBuffer true w).pc ≠ .scan addrx := by
        intro addrx
        unfold writeStep
        split
        · next addrx' hpc => exact absurd hpc (h addrx')
        · simp
        · split <;> simp
        · exact h addrx
      rw [eraseLog, hnone, ih hnext]
      rfl

/-- A sector that is erased was not blank. -/
theorem not_blanked_of_erasedNext (h : j.InMainFlash) (hw : WriterInv j pBuffer f w) {s : Nat}
    (hs : erasedNext j w = some s) : ¬ Blanked s w.flash := by
  intro hblank
  cases hpc : w.pc with
  | scan addrx =>
      simp only [WriterInv, hpc] at hw
      obtain ⟨i, -, haddr, -⟩ := hw
      simp only [erasedNext, hpc, Option.ite_none_right_eq_some, Option.some.injEq] at hs
      obtain ⟨⟨hlt, hword⟩, rfl⟩ := hs
      rw [h.endaddr_eq] at hlt
      have hmem := h.mem_sector (i := i) (by omega)
      rw [← haddr] at hmem
      exact hword (hblank addrx hmem)
  | wait => simp [erasedNext, hpc] at hs
  | program k => simp [erasedNext, hpc] at hs
  | done => simp [erasedNext, hpc] at hs

/-- What is blank stays blank during the scan. -/
theorem Blanked.step {addrx s : Nat} (hb : Blanked s w.flash) (hpc : w.pc = .scan addrx) :
    Blanked s (writeStep j pBuffer true w).flash := by
  intro x hx
  rw [writeStep_scan hpc]
  split
  · rw [eraseSector, erase, hb x hx, ite_self]
  · exact hb x hx

/-- A sector that was just erased is blank. -/
theorem blanked_of_erasedNext {addrx s : Nat} (hpc : w.pc = .scan addrx)
    (hs : erasedNext j w = some s) : Blanked s (writeStep j pBuffer true w).flash := by
  intro x hx
  rw [writeStep_scan hpc, hs]
  exact erase_of_mem hx _

/-- A sector that is blank when the scan goes on is not erased again. -/
theorem not_mem_eraseLog (h : j.InMainFlash) (hw : WriterInv j pBuffer f w) {s : Nat}
    (hb : Blanked s w.flash) (t : Nat) : s ∉ eraseLog j pBuffer t w := by
  induction t generalizing w with
  | zero => simp [eraseLog]
  | succ t ih =>
      by_cases hscan : ∃ addrx, w.pc = .scan addrx
      · obtain ⟨addrx, hpc⟩ := hscan
        rw [eraseLog, List.mem_append, not_or]
        refine ⟨fun hmem => ?_, ih (writerInv_step h hw) (hb.step hpc)⟩
        exact not_blanked_of_erasedNext h hw (Option.mem_toList.mp hmem) hb
      · rw [eraseLog_of_not_scan (by simpa using hscan)]
        simp

/-- **No sector is erased twice**, whatever number of passes is made. -/
theorem eraseLog_nodup (h : j.InMainFlash) (hw : WriterInv j pBuffer f w) (t : Nat) :
    (eraseLog j pBuffer t w).Nodup := by
  induction t generalizing w with
  | zero => simp [eraseLog]
  | succ t ih =>
      rw [eraseLog]
      cases hs : erasedNext j w with
      | none => exact ih (writerInv_step h hw)
      | some s =>
          by_cases hscan : ∃ addrx, w.pc = .scan addrx
          · obtain ⟨addrx, hpc⟩ := hscan
            have hinv := writerInv_step h hw
            exact List.nodup_cons.mpr
              ⟨not_mem_eraseLog h hinv (blanked_of_erasedNext hpc hs) t, ih hinv⟩
          · have hlog : eraseLog j pBuffer 1 w = [] :=
              eraseLog_of_not_scan (by simpa using hscan) 1
            simp [eraseLog, hs] at hlog

end writer

/-! ## What a write does -/

/-- The word at `x` shares its sector with a word of the range that is not blank. -/
def Dirty (f : Flash) (a n x : Nat) : Prop :=
  ∃ i < n, f (a + 4 * i) ≠ 0xFFFFFFFF ∧ sectors.Together (a + 4 * i) x

/-- What is asked of a write of `ws` to `a`. -/
structure WriteOk (f : Flash) (a : Nat) (ws : List (BitVec 32)) : Prop where
  /-- the call returns -/
  returns : ∃ t, writeRun ⟨a, ws.length⟩ (fun i => ws.getD i 0) t
    (writeStart ⟨a, ws.length⟩ f) = ⟨STMFLASH_Write f a ws, .done⟩
  /-- and erases no sector twice -/
  erases : ∀ t, (eraseLog ⟨a, ws.length⟩ (fun i => ws.getD i 0) t
    (writeStart ⟨a, ws.length⟩ f)).Nodup
  /-- the buffer is read back -/
  reads : STMFLASH_Read (STMFLASH_Write f a ws) a ws.length = ws
  /-- a word outside the range is erased with its sector -/
  dirty : ∀ x, (∀ i < ws.length, x ≠ a + 4 * i) → Dirty f a ws.length x →
    STMFLASH_Write f a ws x = 0xFFFFFFFF
  /-- or left alone -/
  clean : ∀ x, (∀ i < ws.length, x ≠ a + 4 * i) → ¬ Dirty f a ws.length x →
    STMFLASH_Write f a ws x = f x

section write

variable {f : Flash} {a : Nat} {ws : List (BitVec 32)}

/-- The scan erases the dirty words, and no others. -/
theorem scrubbed_eq_ite (h : WriteArgs.InMainFlash ⟨a, ws.length⟩) (x : Nat) :
    (Dirty f a ws.length x → scrubbed f a ws.length x = blank) ∧
      (¬ Dirty f a ws.length x → scrubbed f a ws.length x = f x) := by
  have htogether : ∀ i < ws.length, sectors.Together (a + 4 * i) x ↔
      sectors.mem (STMFLASH_GetFlashSector (a + 4 * i)) x = true := by
    intro i hi
    have h0 : STM32_FLASH_BASE ≤ a := h.base_le
    have h1 : a + 4 * ws.length ≤ 0x08200000 := h.le_end
    exact sectors.together_iff (Nat.le_trans h0 (Nat.le_add_right _ _))
      (Nat.lt_of_lt_of_le (by omega : a + 4 * i < a + 4 * ws.length) h1)
  constructor
  · rintro ⟨i, hi, hf, hx⟩
    exact scrubbed_eq_blank hi hf ((htogether i hi).mp hx)
  · intro hclean
    rw [scrubbed, if_neg]
    intro hany
    obtain ⟨i, hi, hp⟩ := List.any_eq_true.mp hany
    simp only [Bool.and_eq_true, bne_iff_ne, ne_eq] at hp
    rw [List.mem_range] at hi
    exact hclean ⟨i, hi, hp.1, (htogether i hi).mpr hp.2⟩

/-- **A write and its side effect.** -/
theorem write_ok (h : WriteArgs.InMainFlash ⟨a, ws.length⟩) (f : Flash) : WriteOk f a ws where
  returns := ⟨3 * ws.length + 4, by
    have hdone := STMFLASH_Write_done (f := f) h
    rw [← hdone]
    rfl⟩
  erases := eraseLog_nodup h (writerInv_start h)
  reads := STMFLASH_Read_Write h
  dirty x hx hd := by
    rw [STMFLASH_Write_eq h, programN_other hx]
    exact (scrubbed_eq_ite h x).1 hd
  clean x hx hd := by
    rw [STMFLASH_Write_eq h, programN_other hx]
    exact (scrubbed_eq_ite h x).2 hd

/-- Three words across the boundary of sectors 3 and 4. -/
theorem write_ok_across : WriteOk (fun a => BitVec.ofNat 32 a) 0x0800FFFC [1, 2, 3] :=
  write_ok ⟨by decide, by decide, by decide⟩ _

end write

end NetCamera
