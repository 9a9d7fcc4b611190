import NetCamera.Lib.NorFlash
import NetCamera.Params

/-!
# NetCamera.Flash

The internal flash of the controller and its driver (`stmflash.c`).

`STMFLASH_Write` is modelled twice over one definition.  `writeStep` is one
pass through one of its loops -- look at a word and erase its sector or move on,
wait, program a word -- on an explicit loop state, so that a power cut or
another task can fall between any two passes; `STMFLASH_Write` runs it to the
end with every HAL call returning `HAL_OK`.

`WriterInv` says what the flash holds in each loop state: the scanned sectors
erased as far as the scan has come (`scrubbed`), then the first `k` words
programmed over blank cells.  A HAL call that fails is taken to leave the cells
as they were.
-/

namespace NetCamera

open NorFlash

/-! ## The flash and its sectors -/

/-- Main flash: the word at each address. -/
abbrev Flash := Cells 32

/-- `STM32_FLASH_BASE`. -/
def STM32_FLASH_BASE : Nat := 0x08000000

/-- `FLASH_SAVE_ADDR`, the start of sector 8. -/
def FLASH_SAVE_ADDR : Nat := 0x08080000

/-- `ADDR_FLASH_SECTOR_0` to `ADDR_FLASH_SECTOR_23`, and the end of main flash. -/
def sectors : Layout where
  starts := [0x08000000, 0x08004000, 0x08008000, 0x0800C000, 0x08010000, 0x08020000,
    0x08040000, 0x08060000, 0x08080000, 0x080A0000, 0x080C0000, 0x080E0000,
    0x08100000, 0x08104000, 0x08108000, 0x0810C000, 0x08110000, 0x08120000,
    0x08140000, 0x08160000, 0x08180000, 0x081A0000, 0x081C0000, 0x081E0000]
  fin := 0x08200000
  sorted := by decide
  nonempty := by decide

/-- `STMFLASH_GetFlashSector`: compares with the start of sector 1, 2, ... 23 in
turn and falls through to 23. -/
def STMFLASH_GetFlashSector (addr : Nat) : Nat := sectors.sectorOf addr

/-- `STMFLASH_ReadWord`. -/
def STMFLASH_ReadWord (f : Flash) (faddr : Nat) : BitVec 32 := f faddr

/-- `HAL_FLASHEx_Erase` of one sector. -/
def eraseSector (s : Nat) (f : Flash) : Flash := erase (sectors.mem s) f

/-- `STMFLASH_Read`: `NumToRead` words from `ReadAddr` on. -/
def STMFLASH_Read (f : Flash) (ReadAddr : Nat) : Nat → List (BitVec 32)
  | 0 => []
  | NumToRead + 1 => STMFLASH_ReadWord f ReadAddr :: STMFLASH_Read f (ReadAddr + 4) NumToRead

/-! ## The writer -/

/-- Where `STMFLASH_Write` stands: in the scan loop at `addrx`, before the wait
between the loops, in the program loop with `k` words behind it, or returned. -/
inductive WritePc where
  | scan (addrx : Nat)
  | wait
  | program (k : Nat)
  | done
  deriving DecidableEq, Repr

/-- The flash and the loop state of a running `STMFLASH_Write`. -/
structure Writer where
  flash : Flash
  pc : WritePc

/-- The arguments `WriteAddr` and `NumToWrite`. -/
structure WriteArgs where
  WriteAddr : Nat
  NumToWrite : Nat

/-- `endaddr`, a 32-bit sum. -/
def WriteArgs.endaddr (j : WriteArgs) : Nat := (j.WriteAddr + j.NumToWrite * 4) % 2 ^ 32

/-- The entry of `STMFLASH_Write`: illegal addresses return at once, addresses
from `0X1FFF0000` on (OTP) are not scanned. -/
def writeStart (j : WriteArgs) (f : Flash) : Writer where
  flash := f
  pc := if j.WriteAddr < STM32_FLASH_BASE ∨ j.WriteAddr % 4 ≠ 0 then .done
    else if j.WriteAddr < 0x1FFF0000 then .scan j.WriteAddr else .wait

/-- One pass of `STMFLASH_Write`.  `pBuffer` is the source as it stands now, and
`ok` tells whether the HAL call of this pass, if it makes one, returns `HAL_OK`.
After an erase the scan looks at the same word again. -/
def writeStep (j : WriteArgs) (pBuffer : Nat → BitVec 32) (ok : Bool) (w : Writer) : Writer :=
  match w.pc with
  | .scan addrx =>
    if addrx < j.endaddr then
      if STMFLASH_ReadWord w.flash addrx ≠ 0xFFFFFFFF then
        if ok then { w with flash := eraseSector (STMFLASH_GetFlashSector addrx) w.flash }
        else { w with pc := .wait }
      else { w with pc := .scan (addrx + 4) }
    else { w with pc := .wait }
  | .wait => if ok then { w with pc := .program 0 } else { w with pc := .done }
  | .program k =>
    if j.WriteAddr + 4 * k < j.endaddr then
      if ok then
        { flash := program (j.WriteAddr + 4 * k) (pBuffer k) w.flash, pc := .program (k + 1) }
      else { w with pc := .done }
    else { w with pc := .done }
  | .done => w

/-- `t` passes over an unchanging source, every HAL call succeeding. -/
def writeRun (j : WriteArgs) (pBuffer : Nat → BitVec 32) : Nat → Writer → Writer
  | 0, w => w
  | t + 1, w => writeRun j pBuffer t (writeStep j pBuffer true w)

/-- `STMFLASH_Write` run to its end: two scan passes and one program pass for
each word, and one to leave each stage, are enough (`STMFLASH_Write_done`). -/
def STMFLASH_Write (f : Flash) (WriteAddr : Nat) (pBuffer : List (BitVec 32)) : Flash :=
  let j : WriteArgs := { WriteAddr, NumToWrite := pBuffer.length }
  (writeRun j (fun i => pBuffer.getD i 0) (3 * pBuffer.length + 4) (writeStart j f)).flash

/-! ## Reading -/

@[simp] theorem length_STMFLASH_Read (f : Flash) (a n : Nat) :
    (STMFLASH_Read f a n).length = n := by
  induction n generalizing a with
  | zero => rfl
  | succ n ih => rw [STMFLASH_Read, List.length_cons, ih]

/-- Word `i` of a read. -/
theorem getElem?_STMFLASH_Read (f : Flash) (a : Nat) {n i : Nat} (h : i < n) :
    (STMFLASH_Read f a n)[i]? = some (f (a + 4 * i)) := by
  induction n generalizing a i with
  | zero => omega
  | succ n ih =>
      cases i with
      | zero => simp [STMFLASH_Read, STMFLASH_ReadWord]
      | succ i =>
          rw [STMFLASH_Read, List.getElem?_cons_succ, ih (a + 4) (by omega)]
          congr 2
          omega

/-- A read that finds the words of a list returns the list. -/
theorem STMFLASH_Read_eq {f : Flash} {a n : Nat} {ws : List (BitVec 32)} (hn : ws.length = n)
    (h : ∀ i (hi : i < ws.length), f (a + 4 * i) = ws[i]) : STMFLASH_Read f a n = ws := by
  subst hn
  apply List.ext_getElem?
  intro i
  by_cases hi : i < ws.length
  · rw [getElem?_STMFLASH_Read f a hi, h i hi, List.getElem?_eq_getElem hi]
  · rw [List.getElem?_eq_none (by simpa using hi), List.getElem?_eq_none (by omega)]

/-- Two flashes that agree on the words read give the same read. -/
theorem STMFLASH_Read_congr {f g : Flash} {a n : Nat}
    (h : ∀ i < n, f (a + 4 * i) = g (a + 4 * i)) : STMFLASH_Read f a n = STMFLASH_Read g a n := by
  apply List.ext_getElem?
  intro i
  by_cases hi : i < n
  · rw [getElem?_STMFLASH_Read f a hi, getElem?_STMFLASH_Read g a hi, h i hi]
  · rw [List.getElem?_eq_none (by simpa using hi), List.getElem?_eq_none (by simpa using hi)]

/-! ## Sectors of main flash -/

theorem blank_eq : (blank : BitVec 32) = 0xFFFFFFFF := rfl

/-- An address of main flash lies in the sector it is looked up to. -/
theorem mem_getFlashSector {a : Nat} (h0 : STM32_FLASH_BASE ≤ a) (h1 : a < 0x08200000) :
    sectors.mem (STMFLASH_GetFlashSector a) a = true :=
  sectors.mem_sectorOf h0 h1

theorem getFlashSector_lt (a : Nat) : STMFLASH_GetFlashSector a < sectors.starts.length := by
  have hle : STMFLASH_GetFlashSector a ≤ (sectors.starts.drop 1).length :=
    List.findIdx_le_length
  have hlen : (sectors.starts.drop 1).length = 23 := rfl
  have hlen' : sectors.starts.length = 24 := rfl
  omega

/-- An address in the sector of another one has that sector. -/
theorem getFlashSector_eq {a x : Nat} (h : sectors.mem (STMFLASH_GetFlashSector a) x = true) :
    STMFLASH_GetFlashSector x = STMFLASH_GetFlashSector a :=
  sectors.sectorOf_eq_of_mem (getFlashSector_lt a) h

/-! ## The loop invariant of the writer -/

/-- A word-aligned range of main flash. -/
structure WriteArgs.InMainFlash (j : WriteArgs) : Prop where
  base_le : STM32_FLASH_BASE ≤ j.WriteAddr
  aligned : j.WriteAddr % 4 = 0
  le_end : j.WriteAddr + 4 * j.NumToWrite ≤ 0x08200000

/-- The flash after the sectors of the non-blank ones among the first `i` words
were erased. -/
def scrubbed (f : Flash) (base i : Nat) : Flash := fun x =>
  if (List.range i).any fun m =>
      f (base + 4 * m) != blank && sectors.mem (STMFLASH_GetFlashSector (base + 4 * m)) x
  then blank else f x

/-- Scanning one more word erases its sector if it was not blank. -/
theorem scrubbed_succ (f : Flash) (base i : Nat) : scrubbed f base (i + 1) =
    if f (base + 4 * i) = blank then scrubbed f base i
    else eraseSector (STMFLASH_GetFlashSector (base + 4 * i)) (scrubbed f base i) := by
  funext x
  by_cases hb : f (base + 4 * i) = blank
  · rw [if_pos hb]
    simp [scrubbed, List.range_succ, hb]
  · rw [if_neg hb]
    cases hm : sectors.mem (STMFLASH_GetFlashSector (base + 4 * i)) x with
    | true =>
        rw [eraseSector, erase_of_mem hm]
        simp [scrubbed, List.range_succ, hb, hm]
    | false =>
        rw [eraseSector, erase_of_not_mem hm]
        simp [scrubbed, List.range_succ, hm]

/-- A word is scrubbed away exactly when a non-blank word of its sector was
scanned. -/
theorem scrubbed_eq_blank {f : Flash} {base i m x : Nat} (hm : m < i)
    (hf : f (base + 4 * m) ≠ blank)
    (hx : sectors.mem (STMFLASH_GetFlashSector (base + 4 * m)) x = true) :
    scrubbed f base i x = blank := by
  rw [scrubbed, if_pos]
  rw [List.any_eq_true]
  exact ⟨m, List.mem_range.mpr hm, by simp [hf, hx]⟩

/-- Where the scan blanked a word that was not blank, a word of its sector was
scanned. -/
theorem exists_of_scrubbed {f : Flash} {base i x : Nat} (hx : f x ≠ blank)
    (h : scrubbed f base i x = blank) : ∃ m < i, f (base + 4 * m) ≠ blank ∧
      sectors.mem (STMFLASH_GetFlashSector (base + 4 * m)) x = true := by
  unfold scrubbed at h
  split at h
  · next hany =>
      obtain ⟨m, hm, hp⟩ := List.any_eq_true.mp hany
      simp only [Bool.and_eq_true, bne_iff_ne, ne_eq] at hp
      exact ⟨m, List.mem_range.mp hm, hp.1, hp.2⟩
  · exact absurd h hx

section writer

variable {j : WriteArgs} {f : Flash} {pBuffer : Nat → BitVec 32}

theorem WriteArgs.InMainFlash.endaddr_eq (h : j.InMainFlash) :
    j.endaddr = j.WriteAddr + 4 * j.NumToWrite := by
  have hle := h.le_end
  unfold WriteArgs.endaddr
  omega

/-- A word of the range lies in the sector it is looked up to. -/
theorem WriteArgs.InMainFlash.mem_sector (h : j.InMainFlash) {i : Nat} (hi : i < j.NumToWrite) :
    sectors.mem (STMFLASH_GetFlashSector (j.WriteAddr + 4 * i)) (j.WriteAddr + 4 * i) = true := by
  have h0 := h.base_le
  have h1 := h.le_end
  exact mem_getFlashSector (by omega) (by omega)

/-- A scanned word is blank. -/
theorem scrubbed_blank (h : j.InMainFlash) {i m : Nat} (hm : m < i) (hi : i ≤ j.NumToWrite) :
    scrubbed f j.WriteAddr i (j.WriteAddr + 4 * m) = blank := by
  by_cases hf : f (j.WriteAddr + 4 * m) = blank
  · unfold scrubbed
    split
    · rfl
    · exact hf
  · exact scrubbed_eq_blank hm hf (h.mem_sector (by omega))

/-- Moving on from a word that reads blank: its sector needs no erase. -/
theorem scrubbed_succ_of_blank {i : Nat}
    (hb : scrubbed f j.WriteAddr i (j.WriteAddr + 4 * i) = blank) :
    scrubbed f j.WriteAddr (i + 1) = scrubbed f j.WriteAddr i := by
  rw [scrubbed_succ]
  split
  · rfl
  · next hf =>
      -- the word was erased with the sector of an earlier one, so its sector is blank
      obtain ⟨m, hm, hfm, hmem⟩ := exists_of_scrubbed hf hb
      have hsec := getFlashSector_eq hmem
      funext x
      cases hx : sectors.mem (STMFLASH_GetFlashSector (j.WriteAddr + 4 * i)) x with
      | true =>
          rw [eraseSector, erase_of_mem hx]
          rw [hsec] at hx
          exact (scrubbed_eq_blank hm hfm hx).symm
      | false => rw [eraseSector, erase_of_not_mem hx]

/-- The loop invariant: what the flash holds, given the flash `f` at the call. -/
def WriterInv (j : WriteArgs) (pBuffer : Nat → BitVec 32) (f : Flash) (w : Writer) : Prop :=
  match w.pc with
  | .scan addrx => ∃ i ≤ j.NumToWrite, addrx = j.WriteAddr + 4 * i ∧
      (w.flash = scrubbed f j.WriteAddr i ∨
        i < j.NumToWrite ∧ w.flash = scrubbed f j.WriteAddr (i + 1))
  | .wait => w.flash = scrubbed f j.WriteAddr j.NumToWrite
  | .program k => k ≤ j.NumToWrite ∧
      w.flash = programN j.WriteAddr 4 pBuffer k (scrubbed f j.WriteAddr j.NumToWrite)
  | .done =>
      w.flash = programN j.WriteAddr 4 pBuffer j.NumToWrite
        (scrubbed f j.WriteAddr j.NumToWrite)

theorem writerInv_start (h : j.InMainFlash) : WriterInv j pBuffer f (writeStart j f) := by
  have h0 := h.base_le
  have h1 := h.le_end
  have hpc : (writeStart j f).pc = .scan j.WriteAddr := by
    rw [writeStart, if_neg (by have := h.aligned; omega), if_pos (by omega)]
  simp only [WriterInv, hpc]
  refine ⟨0, by omega, by omega, Or.inl ?_⟩
  funext x
  simp [writeStart, scrubbed]

/-- The scan: each pass keeps the invariant. -/
theorem writerInv_scan (h : j.InMainFlash) {w : Writer} {addrx : Nat} (hpc : w.pc = .scan addrx)
    (hw : WriterInv j pBuffer f w) : WriterInv j pBuffer f (writeStep j pBuffer true w) := by
  simp only [WriterInv, hpc] at hw
  obtain ⟨i, hi, haddr, hflash⟩ := hw
  subst haddr
  simp only [writeStep, hpc, h.endaddr_eq, STMFLASH_ReadWord]
  by_cases hlt : j.WriteAddr + 4 * i < j.WriteAddr + 4 * j.NumToWrite
  · have hin : i < j.NumToWrite := by omega
    rw [if_pos hlt]
    by_cases hb : w.flash (j.WriteAddr + 4 * i) = blank
    · -- blank: the scan moves on
      rw [if_neg (by rw [← blank_eq]; exact fun hne => hne hb)]
      refine ⟨i + 1, by omega, by omega, Or.inl ?_⟩
      rcases hflash with hflash | ⟨_, hflash⟩
      · rw [hflash] at hb
        rw [hflash, scrubbed_succ_of_blank hb]
      · exact hflash
    · -- not blank: its sector is erased and the word is looked at again
      rw [if_pos (by rw [← blank_eq]; exact hb), if_pos trivial]
      simp only [WriterInv]
      refine ⟨i, hi, rfl, Or.inr ⟨hin, ?_⟩⟩
      rcases hflash with hflash | ⟨_, hflash⟩
      · have hfi : f (j.WriteAddr + 4 * i) ≠ blank := by
          intro hfi
          apply hb
          rw [hflash, scrubbed]
          split
          · rfl
          · exact hfi
        rw [hflash, scrubbed_succ, if_neg hfi]
      · exact absurd (by rw [hflash, scrubbed_blank h (Nat.lt_succ_self i) (by omega)]) hb
  · have hn : i = j.NumToWrite := by omega
    rw [if_neg hlt]
    rcases hflash with hflash | ⟨hlt', _⟩
    · simpa [WriterInv, hn] using hflash
    · omega

/-- **Loop invariant**: each pass keeps it. -/
theorem writerInv_step (h : j.InMainFlash) {w : Writer} (hw : WriterInv j pBuffer f w) :
    WriterInv j pBuffer f (writeStep j pBuffer true w) := by
  cases hpc : w.pc with
  | scan addrx => exact writerInv_scan h hpc hw
  | wait =>
      simp only [WriterInv, hpc] at hw
      simp [writeStep, hpc, WriterInv, programN, hw]
  | program k =>
      simp only [WriterInv, hpc] at hw
      obtain ⟨hk, hflash⟩ := hw
      simp only [writeStep, hpc, h.endaddr_eq]
      by_cases hlt : j.WriteAddr + 4 * k < j.WriteAddr + 4 * j.NumToWrite
      · rw [if_pos hlt, if_pos trivial]
        exact ⟨by omega, by rw [hflash]; rfl⟩
      · have hn : k = j.NumToWrite := by omega
        rw [if_neg hlt]
        subst hn
        exact hflash
  | done =>
      have hstep : writeStep j pBuffer true w = w := by simp [writeStep, hpc]
      rw [hstep]
      exact hw

/-- The flash at any moment of a `STMFLASH_Write`. -/
theorem writerInv_run (h : j.InMainFlash) {w : Writer} (hw : WriterInv j pBuffer f w) (t : Nat) :
    WriterInv j pBuffer f (writeRun j pBuffer t w) := by
  induction t generalizing w with
  | zero => exact hw
  | succ t ih => exact ih (writerInv_step h hw)

/-! ## Termination -/

/-- How many passes are left at most. -/
def writerRank (j : WriteArgs) (w : Writer) : Nat :=
  match w.pc with
  | .scan addrx => j.NumToWrite + 3 + 2 * ((j.endaddr - addrx) / 4) +
      (if addrx < j.endaddr ∧ w.flash addrx ≠ blank then 1 else 0)
  | .wait => j.NumToWrite + 2
  | .program k => j.NumToWrite - k + 1
  | .done => 0

/-- Each pass of the scan lowers the rank: an erase makes the word blank, and a
blank word is passed. -/
theorem writerRank_scan (h : j.InMainFlash) {w : Writer} {addrx : Nat}
    (hpc : w.pc = .scan addrx) (hw : WriterInv j pBuffer f w) :
    writerRank j (writeStep j pBuffer true w) < writerRank j w := by
  simp only [WriterInv, hpc] at hw
  obtain ⟨i, hi, haddr, -⟩ := hw
  subst haddr
  have hdiv : ∀ m, (j.WriteAddr + 4 * j.NumToWrite - (j.WriteAddr + 4 * m)) / 4 =
      j.NumToWrite - m := by
    intro m; omega
  simp only [writeStep, hpc, h.endaddr_eq, STMFLASH_ReadWord]
  by_cases hlt : j.WriteAddr + 4 * i < j.WriteAddr + 4 * j.NumToWrite
  · rw [if_pos hlt]
    by_cases hb : w.flash (j.WriteAddr + 4 * i) = blank
    · rw [if_neg (by rw [← blank_eq]; exact fun hne => hne hb)]
      simp only [writerRank, hpc, h.endaddr_eq]
      have hsucc := hdiv (i + 1)
      have heq := hdiv i
      rw [Nat.mul_add, ← Nat.add_assoc] at hsucc
      rw [if_neg (c := _ ∧ w.flash (j.WriteAddr + 4 * i) ≠ blank) (fun hc => hc.2 hb)]
      split <;> omega
    · rw [if_pos (by rw [← blank_eq]; exact hb), if_pos trivial]
      have hblank : eraseSector (STMFLASH_GetFlashSector (j.WriteAddr + 4 * i)) w.flash
          (j.WriteAddr + 4 * i) = blank := erase_of_mem (h.mem_sector (by omega)) w.flash
      simp only [writerRank, hpc, h.endaddr_eq]
      rw [if_neg (fun hc => hc.2 hblank), if_pos ⟨hlt, hb⟩]
      omega
  · rw [if_neg hlt]
    simp only [writerRank, hpc]
    omega

/-- Every pass lowers the rank until the call returns. -/
theorem writerRank_step (h : j.InMainFlash) {w : Writer} (hw : WriterInv j pBuffer f w)
    (hrun : w.pc ≠ .done) : writerRank j (writeStep j pBuffer true w) < writerRank j w := by
  cases hpc : w.pc with
  | scan addrx => exact writerRank_scan h hpc hw
  | wait => simp [writerRank, writeStep, hpc]
  | program k =>
      simp only [WriterInv, hpc] at hw
      simp only [writeStep, hpc, h.endaddr_eq]
      split
      · next hlt =>
          rw [if_pos trivial]
          simp only [writerRank, hpc]
          omega
      · simp [writerRank, hpc]
  | done => exact absurd hpc hrun

/-- Enough passes finish the call. -/
theorem writeRun_done (h : j.InMainFlash) {w : Writer} (hw : WriterInv j pBuffer f w) {t : Nat}
    (ht : writerRank j w ≤ t) : (writeRun j pBuffer t w).pc = .done := by
  induction t generalizing w with
  | zero =>
      cases hpc : w.pc <;> simp [writerRank, hpc] at ht
      simpa [writeRun] using hpc
  | succ t ih =>
      rw [writeRun]
      by_cases hpc : w.pc = .done
      · have hstep : writeStep j pBuffer true w = w := by simp [writeStep, hpc]
        rw [hstep]
        exact ih hw (by simp [writerRank, hpc])
      · have hlt := writerRank_step h hw hpc
        exact ih (writerInv_step h hw) (by omega)

theorem writerRank_start (h : j.InMainFlash) :
    writerRank j (writeStart j f) ≤ 3 * j.NumToWrite + 4 := by
  have h0 := h.base_le
  have h1 := h.le_end
  have hpc : (writeStart j f).pc = .scan j.WriteAddr := by
    rw [writeStart, if_neg (by have := h.aligned; omega), if_pos (by omega)]
  simp only [writerRank, hpc, h.endaddr_eq]
  split <;> omega

end writer

/-! ## What a write does -/

section write

variable {f : Flash} {a : Nat} {ws : List (BitVec 32)}

/-- `STMFLASH_Write` returns. -/
theorem STMFLASH_Write_done (h : WriteArgs.InMainFlash ⟨a, ws.length⟩) :
    (writeRun ⟨a, ws.length⟩ (fun i => ws.getD i 0) (3 * ws.length + 4)
      (writeStart ⟨a, ws.length⟩ f)).pc = .done :=
  writeRun_done h (writerInv_start h) (writerRank_start h)

/-- **Specification of `STMFLASH_Write`**: the sectors of the non-blank words of
the range erased, then the words of the buffer programmed. -/
theorem STMFLASH_Write_eq (h : WriteArgs.InMainFlash ⟨a, ws.length⟩) :
    STMFLASH_Write f a ws =
      programN a 4 (fun i => ws.getD i 0) ws.length (scrubbed f a ws.length) := by
  have hstart : WriterInv ⟨a, ws.length⟩ (fun i => ws.getD i 0) f (writeStart ⟨a, ws.length⟩ f) :=
    writerInv_start h
  have hinv := writerInv_run h hstart (3 * ws.length + 4)
  simp only [WriterInv, STMFLASH_Write_done h] at hinv
  exact hinv

/-- A word of the buffer after the write. -/
theorem STMFLASH_Write_word (h : WriteArgs.InMainFlash ⟨a, ws.length⟩) {i : Nat}
    (hi : i < ws.length) : STMFLASH_Write f a ws (a + 4 * i) = ws[i] := by
  rw [STMFLASH_Write_eq h, programN_done (by decide) hi]
  · rw [List.getD_eq_getElem?_getD, List.getElem?_eq_getElem hi, Option.getD_some]
  · exact scrubbed_blank h hi (Nat.le_refl _)

/-- Reading back a write gives the buffer. -/
theorem STMFLASH_Read_Write (h : WriteArgs.InMainFlash ⟨a, ws.length⟩) :
    STMFLASH_Read (STMFLASH_Write f a ws) a ws.length = ws :=
  STMFLASH_Read_eq rfl fun _ hi => STMFLASH_Write_word h hi

end write

end NetCamera
