import Mathlib.Algebra.Group.Nat.Defs

/-!
# NetCamera.Params

The parameter record `SavePara_TypeDef` and its image in memory.

The record is 17 bytes of fields, 18 with its padding byte, and is moved to and
from flash as five 32-bit words: the transfers also carry the padding byte and
the two bytes of RAM that follow the record (`Slack`).  `ParaRam` is that
20-byte area; `words` and `load` are the two directions of the `(u32 *)` cast,
little-endian, and are inverse to each other.
-/

namespace NetCamera

/-! ## The record -/

/-- `SavePara_TypeDef`. -/
structure SavePara where
  mode : UInt8
  cap : UInt8
  ip0 : UInt8
  ip1 : UInt8
  ip2 : UInt8
  ip3 : UInt8
  port : UInt16
  size0 : UInt16
  size1 : UInt16
  rate : UInt8
  bright : UInt8
  contrast : UInt8
  exp : UInt8
  pol : UInt8
  deriving DecidableEq, Repr

/-- `DefaultList`. -/
def DefaultList : SavePara where
  mode := 99
  cap := 0
  ip0 := 192
  ip1 := 168
  ip2 := 1
  ip3 := 150
  port := 8088
  size0 := 640
  size1 := 480
  rate := 30
  bright := 50
  contrast := 50
  exp := 60
  pol := 1

/-- The bytes behind `pol` that a transfer of whole words moves as well: the
padding byte of the record and the two bytes of RAM after it. -/
structure Slack where
  pad : UInt8
  next0 : UInt8
  next1 : UInt8
  deriving DecidableEq, Repr

/-- The 20 bytes of RAM from `&SaveParaList` on. -/
structure ParaRam where
  SaveParaList : SavePara
  slack : Slack
  deriving DecidableEq, Repr

/-! ## Bytes of words and halfwords -/

/-- Four bytes as a little-endian word. -/
def packWord (b0 b1 b2 b3 : UInt8) : BitVec 32 :=
  BitVec.ofNat 32 (b0.toNat + 256 * b1.toNat + 65536 * b2.toNat + 16777216 * b3.toNat)

/-- Byte `i` of a little-endian word. -/
def byteOf (w : BitVec 32) (i : Nat) : UInt8 := UInt8.ofNat (w.toNat / 256 ^ i)

/-- The low and the high byte of a halfword. -/
def lo (h : UInt16) : UInt8 := UInt8.ofNat h.toNat
def hi (h : UInt16) : UInt8 := UInt8.ofNat (h.toNat / 256)

/-- Two bytes as a little-endian halfword. -/
def packHalf (b0 b1 : UInt8) : UInt16 := UInt16.ofNat (b0.toNat + 256 * b1.toNat)

theorem toNat_packWord (b0 b1 b2 b3 : UInt8) : (packWord b0 b1 b2 b3).toNat =
    b0.toNat + 256 * b1.toNat + 65536 * b2.toNat + 16777216 * b3.toNat := by
  have h0 := b0.toNat_lt
  have h1 := b1.toNat_lt
  have h2 := b2.toNat_lt
  have h3 := b3.toNat_lt
  rw [packWord, BitVec.toNat_ofNat]
  omega

/-- The bytes of a packed word. -/
theorem byteOf_packWord (b0 b1 b2 b3 : UInt8) :
    byteOf (packWord b0 b1 b2 b3) 0 = b0 ∧ byteOf (packWord b0 b1 b2 b3) 1 = b1 ∧
    byteOf (packWord b0 b1 b2 b3) 2 = b2 ∧ byteOf (packWord b0 b1 b2 b3) 3 = b3 := by
  have h0 := b0.toNat_lt
  have h1 := b1.toNat_lt
  have h2 := b2.toNat_lt
  have h3 := b3.toNat_lt
  simp only [byteOf, toNat_packWord]
  refine ⟨?_, ?_, ?_, ?_⟩ <;> apply UInt8.toNat_inj.mp <;>
    simp only [UInt8.toNat_ofNat'] <;> omega

/-- A word is packed from its bytes. -/
theorem packWord_byteOf (w : BitVec 32) :
    packWord (byteOf w 0) (byteOf w 1) (byteOf w 2) (byteOf w 3) = w := by
  have hw := w.isLt
  apply BitVec.eq_of_toNat_eq
  rw [toNat_packWord]
  simp only [byteOf, UInt8.toNat_ofNat']
  omega

theorem packHalf_lo_hi (h : UInt16) : packHalf (lo h) (hi h) = h := by
  have hh := h.toNat_lt
  apply UInt16.toNat_inj.mp
  simp only [packHalf, lo, hi, UInt16.toNat_ofNat', UInt8.toNat_ofNat']
  omega

theorem lo_packHalf (b0 b1 : UInt8) : lo (packHalf b0 b1) = b0 := by
  have h0 := b0.toNat_lt
  have h1 := b1.toNat_lt
  apply UInt8.toNat_inj.mp
  simp only [packHalf, lo, UInt16.toNat_ofNat', UInt8.toNat_ofNat']
  omega

theorem hi_packHalf (b0 b1 : UInt8) : hi (packHalf b0 b1) = b1 := by
  have h0 := b0.toNat_lt
  have h1 := b1.toNat_lt
  apply UInt8.toNat_inj.mp
  simp only [packHalf, hi, UInt16.toNat_ofNat', UInt8.toNat_ofNat']
  omega

/-! ## The word image -/

/-- `sizeof(SavePara_TypeDef)`: 17 bytes of fields, aligned to halfwords. -/
def sizeof_SavePara : Nat := 18

/-- The word count of a save or load: `sizeof/4`, one more for a remainder. -/
def paraWords : Nat := sizeof_SavePara / 4 + (if sizeof_SavePara % 4 ≠ 0 then 1 else 0)

namespace ParaRam

/-- `(u32 *)&SaveParaList`, the five words of the area. -/
def words (m : ParaRam) : List (BitVec 32) :=
  let p := m.SaveParaList
  [packWord p.mode p.cap p.ip0 p.ip1,
   packWord p.ip2 p.ip3 (lo p.port) (hi p.port),
   packWord (lo p.size0) (hi p.size0) (lo p.size1) (hi p.size1),
   packWord p.rate p.bright p.contrast p.exp,
   packWord p.pol m.slack.pad m.slack.next0 m.slack.next1]

/-- The area after five words were stored to it. -/
def load (ws : List (BitVec 32)) : ParaRam where
  SaveParaList :=
    { mode := byteOf (ws.getD 0 0) 0, cap := byteOf (ws.getD 0 0) 1
      ip0 := byteOf (ws.getD 0 0) 2, ip1 := byteOf (ws.getD 0 0) 3
      ip2 := byteOf (ws.getD 1 0) 0, ip3 := byteOf (ws.getD 1 0) 1
      port := packHalf (byteOf (ws.getD 1 0) 2) (byteOf (ws.getD 1 0) 3)
      size0 := packHalf (byteOf (ws.getD 2 0) 0) (byteOf (ws.getD 2 0) 1)
      size1 := packHalf (byteOf (ws.getD 2 0) 2) (byteOf (ws.getD 2 0) 3)
      rate := byteOf (ws.getD 3 0) 0, bright := byteOf (ws.getD 3 0) 1
      contrast := byteOf (ws.getD 3 0) 2, exp := byteOf (ws.getD 3 0) 3
      pol := byteOf (ws.getD 4 0) 0 }
  slack :=
    { pad := byteOf (ws.getD 4 0) 1, next0 := byteOf (ws.getD 4 0) 2
      next1 := byteOf (ws.getD 4 0) 3 }

@[simp] theorem length_words (m : ParaRam) : m.words.length = paraWords := by
  simp [words, paraWords, sizeof_SavePara]

/-- Loading the words of an area gives the area back. -/
@[simp] theorem load_words (m : ParaRam) : load m.words = m := by
  obtain ⟨p, s⟩ := m
  simp [load, words, byteOf_packWord, packHalf_lo_hi]

/-- Five words are the image of the area loaded from them. -/
theorem words_load {ws : List (BitVec 32)} (h : ws.length = paraWords) :
    (load ws).words = ws := by
  match ws, h with
  | [w0, w1, w2, w3, w4], _ =>
      simp [load, words, packWord_byteOf, lo_packHalf, hi_packHalf]

end ParaRam

end NetCamera
