import NetCamera.Lib.Run
import NetCamera.Store

/-!
# NetCamera.RamFrame

Saving and loading `SaveParaList` among other variables.

RAM is bytes here, with the record at `p`.  Both transfers go through a `(u32 *)`
cast and round the 18 bytes of the record up to five words, so they also carry the
two bytes behind it: a save takes them to flash as they are, and a load brings back
what they were at the last save.  `load_frame_iff` makes of this the exact
condition for a load to touch nothing but the record.

`saveRam_eq` and `areaAt_loadRam` connect the bytes with the area of
`NetCamera.Params` that the rest of the development works on.
-/

namespace NetCamera

open NorFlash Run

/-! ## Words in RAM -/

/-- The byte at each address. -/
abbrev Ram := Nat → UInt8

/-- `*(u32 *)a`. -/
def loadWord (m : Ram) (a : Nat) : BitVec 32 := packWord (m a) (m (a + 1)) (m (a + 2)) (m (a + 3))

/-- `*(u32 *)a = w`. -/
def storeWord (m : Ram) (a : Nat) (w : BitVec 32) : Ram := fun x =>
  if a ≤ x ∧ x < a + 4 then byteOf w (x - a) else m x

/-- The words that a save reads through its pointer. -/
def loadWords (m : Ram) (a : Nat) : Nat → List (BitVec 32)
  | 0 => []
  | n + 1 => loadWord m a :: loadWords m (a + 4) n

/-- The words that a load stores through its pointer. -/
def storeWords (m : Ram) (a : Nat) : List (BitVec 32) → Ram
  | [] => m
  | w :: ws => storeWords (storeWord m a w) (a + 4) ws

/-- `STMFLASH_Write(FLASH_SAVE_ADDR, (u32 *)&SaveParaList, ...)`. -/
def saveRam (p : Nat) (m : Ram) (f : Flash) : Flash :=
  STMFLASH_Write f FLASH_SAVE_ADDR (loadWords m p paraWords)

/-- `STMFLASH_Read(FLASH_SAVE_ADDR, (u32 *)&SaveParaList, ...)`. -/
def loadRam (p : Nat) (f : Flash) (m : Ram) : Ram :=
  storeWords m p (STMFLASH_Read f FLASH_SAVE_ADDR paraWords)

/-! ## Bytes of the words -/

theorem byteOf_loadWord (m : Ram) (a : Nat) {k : Nat} (hk : k < 4) :
    byteOf (loadWord m a) k = m (a + k) := by
  obtain ⟨h0, h1, h2, h3⟩ := byteOf_packWord (m a) (m (a + 1)) (m (a + 2)) (m (a + 3))
  match k, hk with
  | 0, _ => exact h0
  | 1, _ => exact h1
  | 2, _ => exact h2
  | 3, _ => exact h3

@[simp] theorem length_loadWords (m : Ram) (a n : Nat) : (loadWords m a n).length = n := by
  induction n generalizing a with
  | zero => rfl
  | succ n ih => rw [loadWords, List.length_cons, ih]

theorem getElem?_loadWords (m : Ram) (a : Nat) {n i : Nat} (h : i < n) :
    (loadWords m a n)[i]? = some (loadWord m (a + 4 * i)) := by
  induction n generalizing a i with
  | zero => omega
  | succ n ih =>
      cases i with
      | zero => rfl
      | succ i =>
          rw [loadWords, List.getElem?_cons_succ, ih (a + 4) (by omega)]
          congr 2
          omega

/-- What a run of words leaves at each address. -/
theorem storeWords_apply (m : Ram) (a : Nat) (ws : List (BitVec 32)) (x : Nat) :
    storeWords m a ws x =
      if a ≤ x ∧ x < a + 4 * ws.length then byteOf (ws.getD ((x - a) / 4) 0) ((x - a) % 4)
      else m x := by
  induction ws generalizing m a with
  | nil => rw [storeWords, if_neg (by simp)]
  | cons w ws ih =>
      rw [storeWords, ih, List.length_cons]
      by_cases hfirst : a ≤ x ∧ x < a + 4
      · have hdiv : (x - a) / 4 = 0 := by omega
        have hmod : (x - a) % 4 = x - a := by omega
        rw [if_neg (by omega), storeWord, if_pos hfirst, if_pos (by omega), hdiv, hmod]
        rfl
      · by_cases hin : a + 4 ≤ x ∧ x < a + 4 + 4 * ws.length
        · have hdiv : (x - a) / 4 = (x - (a + 4)) / 4 + 1 := by omega
          have hmod : (x - a) % 4 = (x - (a + 4)) % 4 := by omega
          rw [if_pos hin, if_pos (by omega), hdiv, hmod, List.getD_cons_succ]
        · rw [if_neg hin, storeWord, if_neg hfirst, if_neg (by omega)]

/-- Byte `i` of the save area. -/
def flashByte (f : Flash) (i : Nat) : UInt8 := byteOf (f (FLASH_SAVE_ADDR + 4 * (i / 4))) (i % 4)

/-- **What a load changes.** -/
theorem loadRam_apply (p : Nat) (f : Flash) (m : Ram) (x : Nat) :
    loadRam p f m x =
      if p ≤ x ∧ x < p + 4 * paraWords then flashByte f (x - p) else m x := by
  rw [loadRam, storeWords_apply, length_STMFLASH_Read]
  split
  · next hin =>
    rw [flashByte, List.getD_eq_getElem?_getD, getElem?_STMFLASH_Read _ _ (by omega),
      Option.getD_some]
  · rfl

/-- **What a save takes to flash.** -/
theorem flashByte_saveRam (p : Nat) (m : Ram) (f : Flash) {i : Nat} (hi : i < 4 * paraWords) :
    flashByte (saveRam p m f) i = m (p + i) := by
  have hlen := length_loadWords m p paraWords
  have harea : WriteArgs.InMainFlash ⟨FLASH_SAVE_ADDR, (loadWords m p paraWords).length⟩ := by
    rw [hlen]
    exact saveArea_inMainFlash
  have hidx : i / 4 < (loadWords m p paraWords).length := by omega
  have hword : (loadWords m p paraWords)[i / 4] = loadWord m (p + 4 * (i / 4)) := by
    have hget := getElem?_loadWords m p (by omega : i / 4 < paraWords)
    rw [List.getElem?_eq_getElem (by omega)] at hget
    exact Option.some.inj hget
  rw [flashByte, saveRam, STMFLASH_Write_word harea (by omega : i / 4 < _), hword,
    byteOf_loadWord m _ (Nat.mod_lt i (by decide))]
  congr 1
  omega

/-! ## The area of the record -/

/-- The record and the bytes behind it, read from RAM. -/
def areaAt (p : Nat) (m : Ram) : ParaRam := ParaRam.load (loadWords m p paraWords)

/-- A save of the bytes is a save of the area. -/
theorem saveRam_eq (p : Nat) (m : Ram) (f : Flash) : saveRam p m f = saveList f (areaAt p m) := by
  rw [saveRam, saveList, areaAt, ParaRam.words_load (length_loadWords m p paraWords)]

/-- A load of the bytes is a load of the area. -/
theorem areaAt_loadRam (p : Nat) (f : Flash) (m : Ram) : areaAt p (loadRam p f m) = loadList f := by
  rw [areaAt, loadList]
  congr 1
  symm
  refine STMFLASH_Read_eq (length_loadWords _ p paraWords) fun i hi => ?_
  rw [length_loadWords] at hi
  have hget := getElem?_loadWords (loadRam p f m) p hi
  rw [List.getElem?_eq_getElem (by simpa using hi)] at hget
  have hbyte : ∀ k < 4, loadRam p f m (p + 4 * i + k) = byteOf (f (FLASH_SAVE_ADDR + 4 * i)) k := by
    intro k hk
    have hdiv : (p + 4 * i + k - p) / 4 = i := by omega
    have hmod : (p + 4 * i + k - p) % 4 = k := by omega
    rw [loadRam_apply, if_pos (by omega), flashByte, hdiv, hmod]
  rw [Option.some.inj hget, loadWord, hbyte 1 (by decide), hbyte 2 (by decide),
    hbyte 3 (by decide)]
  have h0 := hbyte 0 (by decide)
  rw [Nat.add_zero] at h0
  rw [h0, packWord_byteOf]

/-! ## Histories -/

/-- RAM, flash, and the bytes from `&SaveParaList` on as the last save took them. -/
structure RamState where
  ram : Ram
  flash : Flash
  saved : Nat → UInt8

/-- A save, a load, or an assignment to some variable. -/
inductive RamEvent where
  | save
  | load
  | assign (addr : Nat) (b : UInt8)
  deriving DecidableEq, Repr

/-- At power-on what stands on flash is what was saved last. -/
def RamState.boot (ram : Ram) (flash : Flash) : RamState := ⟨ram, flash, flashByte flash⟩

/-- One event, with `SaveParaList` at `p`. -/
def ramStep (p : Nat) (s : RamState) : RamEvent → Option RamState
  | .save => some { s with flash := saveRam p s.ram s.flash, saved := fun i => s.ram (p + i) }
  | .load => some { s with ram := loadRam p s.flash s.ram }
  | .assign addr b => some { s with ram := fun x => if x = addr then b else s.ram x }

/-- A load sets the bytes of `SaveParaList` to the saved ones and leaves every other byte of
RAM unchanged. -/
def LoadFramed (p : Nat) (s : RamState) (e : RamEvent) : Prop :=
  e = .load → ∀ s', ramStep p s e = some s' →
    (∀ i < sizeof_SavePara, s'.ram (p + i) = s.saved i) ∧
      ∀ x, x < p ∨ p + sizeof_SavePara ≤ x → s'.ram x = s.ram x

/-- At a load the bytes behind the record are what they were at the last save. -/
def NeighbourAsSaved (p : Nat) (s : RamState) (e : RamEvent) : Prop :=
  e = .load → ∀ i, sizeof_SavePara ≤ i → i < 4 * paraWords → s.ram (p + i) = s.saved i

/-- Flash holds what was saved last. -/
def SavedOnFlash (s : RamState) : Prop := ∀ i < 4 * paraWords, flashByte s.flash i = s.saved i

section history

variable {p : Nat} {s s' : RamState} {e : RamEvent}

theorem SavedOnFlash.step (h : SavedOnFlash s) (hstep : ramStep p s e = some s') :
    SavedOnFlash s' := by
  cases e with
  | save =>
      cases hstep
      exact fun i hi => flashByte_saveRam p s.ram s.flash hi
  | load =>
      cases hstep
      exact h
  | assign addr b =>
      cases hstep
      exact h

/-- **A load stays within the record** exactly when the bytes behind it have not changed since
the last save. -/
theorem load_frame_iff (h : SavedOnFlash s) : LoadFramed p s e ↔ NeighbourAsSaved p s e := by
  have hwords : 4 * paraWords = sizeof_SavePara + 2 := rfl
  constructor
  · rintro hframe rfl i hge hlt
    obtain ⟨-, hrest⟩ := hframe rfl _ rfl
    have hsame := hrest (p + i) (Or.inr (by omega))
    have hsub : p + i - p = i := by omega
    simp only [loadRam_apply] at hsame
    rw [if_pos (by omega), hsub, h i hlt] at hsame
    exact hsame.symm
  · rintro hsaved rfl s' hstep
    cases hstep
    simp only [loadRam_apply]
    constructor
    · intro i hi
      have hsub : p + i - p = i := by omega
      rw [if_pos (by omega), hsub, h i (by omega)]
    · intro x hx
      split
      · next hin =>
        have hi := hsaved rfl (x - p) (by omega) (by omega)
        have hadd : p + (x - p) = x := by omega
        rw [hadd] at hi
        rw [h (x - p) (by omega), hi]
      · rfl

end history

/-- **Loading touches only the record** in exactly the histories in which every load finds the
bytes behind it as they were at the last save. -/
theorem loads_framed_iff (p : Nat) (ram : Ram) (flash : Flash) (es : List RamEvent) :
    Steps (ramStep p) (LoadFramed p) (.boot ram flash) es ↔
      Steps (ramStep p) (NeighbourAsSaved p) (.boot ram flash) es := by
  have hboot : SavedOnFlash (.boot ram flash) := fun _ _ => rfl
  constructor
  · exact steps_of_steps (fun _ _ _ h _ hstep => h.step hstep)
      (fun _ _ h => (load_frame_iff h).mp) hboot
  · exact steps_of_steps (fun _ _ _ h _ hstep => h.step hstep)
      (fun _ _ h => (load_frame_iff h).mpr) hboot

/-- A neighbour that was assigned after the save is set back by the next load. -/
theorem load_overwrites_neighbour :
    ¬ Steps (ramStep 0x20000000) (LoadFramed 0x20000000) (.boot (fun _ => 0) fun _ => 0)
      [.save, .assign 0x20000012 7, .load] := by
  intro h
  have hload := ((h.2 _ rfl).2 _ rfl).1
  have hsame := (hload rfl _ rfl).2 0x20000012 (Or.inr (by decide))
  simp only [loadRam_apply] at hsame
  rw [if_pos (by decide), flashByte_saveRam _ _ _ (by decide)] at hsame
  exact absurd hsame (by decide)

end NetCamera
