import Mathlib.Logic.Function.Basic
import NetCamera.Lib.Tiling

/-!
# NetCamera.Lwip.Mem

The heap of lwIP (`mem.c`): `mem_init`, `mem_malloc`, `mem_free`, `mem_trim` and `mem_calloc`.

The blocks lie one behind the other, each with a `struct mem` at its start, in the same bytes that
are handed out; a place in the heap is its offset from `ram`.  Every function works between
`sys_mutex_lock` and `sys_mutex_unlock`, so each is one step here.
-/

namespace NetCamera.Lwip

open Tiling

def MEM_SIZE_ALIGNED : Nat := 16000

def MIN_SIZE_ALIGNED : Nat := 12

def SIZEOF_STRUCT_MEM : Nat := 8

def MEM_ALIGNMENT : Nat := 4

/-- `size` and addresses up to the next multiple of `MEM_ALIGNMENT`. -/
def LWIP_MEM_ALIGN_SIZE (size : Nat) : Nat :=
  (size + MEM_ALIGNMENT - 1) / MEM_ALIGNMENT * MEM_ALIGNMENT

/-- A value kept as a `mem_size_t`. -/
def memSize (n : Nat) : Nat := n % 65536

/-- The difference of two `unsigned int`. -/
def sub32 (a b : Nat) : Nat := (a + 4294967296 - b) % 4294967296

/-- The heap: where it starts, its bytes, and the offset of the lowest free block. -/
structure MemHeap where
  ram : Nat
  bytes : Nat → UInt8
  lfree : Nat

/-- Two bytes as a `mem_size_t`. -/
def get16 (m : Nat → UInt8) (a : Nat) : Nat := (m a).toNat + 256 * (m (a + 1)).toNat

def set16 (m : Nat → UInt8) (a v : Nat) : Nat → UInt8 :=
  Function.update (Function.update m a (UInt8.ofNat v)) (a + 1) (UInt8.ofNat (v / 256))

namespace MemHeap

/-! ## `struct mem` -/

def next (h : MemHeap) (p : Nat) : Nat := get16 h.bytes p

def prev (h : MemHeap) (p : Nat) : Nat := get16 h.bytes (p + 2)

def used (h : MemHeap) (p : Nat) : UInt8 := h.bytes (p + 4)

def setNext (h : MemHeap) (p v : Nat) : MemHeap := { h with bytes := set16 h.bytes p v }

def setPrev (h : MemHeap) (p v : Nat) : MemHeap := { h with bytes := set16 h.bytes (p + 2) v }

def setUsed (h : MemHeap) (p : Nat) (v : UInt8) : MemHeap :=
  { h with bytes := Function.update h.bytes (p + 4) v }

/-! ## The functions -/

def mem_init (h : MemHeap) (ram_heap : Nat) : MemHeap :=
  let h := { h with ram := LWIP_MEM_ALIGN_SIZE ram_heap }
  let h := ((h.setNext 0 MEM_SIZE_ALIGNED).setPrev 0 0).setUsed 0 0
  let h := ((h.setUsed MEM_SIZE_ALIGNED 1).setNext MEM_SIZE_ALIGNED MEM_SIZE_ALIGNED).setPrev
    MEM_SIZE_ALIGNED MEM_SIZE_ALIGNED
  { h with lfree := 0 }

/-- The first half of `plug_holes`. -/
def plugForward (h : MemHeap) (mem : Nat) : MemHeap :=
  let nmem := h.next mem
  if mem ≠ nmem ∧ h.used nmem = 0 ∧ nmem ≠ MEM_SIZE_ALIGNED then
    let h := if h.lfree = nmem then { h with lfree := mem } else h
    let h := h.setNext mem (h.next nmem)
    h.setPrev (h.next nmem) mem
  else h

/-- The second half of `plug_holes`. -/
def plugBackward (h : MemHeap) (mem : Nat) : MemHeap :=
  let pmem := h.prev mem
  if pmem ≠ mem ∧ h.used pmem = 0 then
    let h := if h.lfree = mem then { h with lfree := pmem } else h
    let h := h.setNext pmem (h.next mem)
    h.setPrev (h.next mem) pmem
  else h

def plug_holes (h : MemHeap) (mem : Nat) : MemHeap := (h.plugForward mem).plugBackward mem

/-- The pointer is not into the heap. -/
def Illegal (h : MemHeap) (rmem : Nat) : Prop := rmem < h.ram ∨ h.ram + MEM_SIZE_ALIGNED ≤ rmem

instance (h : MemHeap) (rmem : Nat) : Decidable (h.Illegal rmem) :=
  inferInstanceAs (Decidable (_ ∨ _))

def mem_free (h : MemHeap) (rmem : Nat) : MemHeap :=
  if rmem = 0 then h
  else if h.Illegal rmem then h
  else
    let mem := rmem - SIZEOF_STRUCT_MEM - h.ram
    let h := h.setUsed mem 0
    let h := if mem < h.lfree then { h with lfree := mem } else h
    h.plug_holes mem

/-- The block at `ptr` is cut at `ptr2`; the second part is free and ends at `next`. -/
def cut (h : MemHeap) (ptr ptr2 next : Nat) : MemHeap :=
  (((h.setUsed ptr2 0).setNext ptr2 next).setPrev ptr2 ptr).setNext ptr ptr2

/-- `prev` of the block behind the new one at `ptr2`. -/
def linkBack (h : MemHeap) (ptr2 : Nat) : MemHeap :=
  if h.next ptr2 ≠ MEM_SIZE_ALIGNED then h.setPrev (h.next ptr2) ptr2 else h

end MemHeap

/-- The size of the block for a request: aligned, and not too small. -/
def blockSize (size : Nat) : Nat :=
  let size := memSize (LWIP_MEM_ALIGN_SIZE size)
  if size < MIN_SIZE_ALIGNED then MIN_SIZE_ALIGNED else size

namespace MemHeap

def mem_trim (h : MemHeap) (rmem newsize : Nat) : Nat × MemHeap :=
  let newsize := blockSize newsize
  if MEM_SIZE_ALIGNED < newsize then (0, h)
  else if h.Illegal rmem then (rmem, h)
  else
    let ptr := memSize (rmem - SIZEOF_STRUCT_MEM - h.ram)
    let size := memSize (sub32 (sub32 (h.next ptr) ptr) SIZEOF_STRUCT_MEM)
    if size < newsize then (0, h)
    else if newsize = size then (rmem, h)
    else
      let mem2 := h.next ptr
      let ptr2 := memSize (ptr + SIZEOF_STRUCT_MEM + newsize)
      if h.used mem2 = 0 then
        let next := h.next mem2
        let h := if h.lfree = mem2 then { h with lfree := ptr2 } else h
        (rmem, (h.cut ptr ptr2 next).linkBack ptr2)
      else if newsize + SIZEOF_STRUCT_MEM + MIN_SIZE_ALIGNED ≤ size then
        let h := if ptr2 < h.lfree then { h with lfree := ptr2 } else h
        (rmem, (h.cut ptr ptr2 (h.next ptr)).linkBack ptr2)
      else (rmem, h)

/-- The data bytes of the block at `ptr`. -/
def room (h : MemHeap) (ptr : Nat) : Nat := sub32 (h.next ptr) (ptr + SIZEOF_STRUCT_MEM)

/-- The loop over the blocks from `ptr` on, for one that is free and large enough; `none` when it
does not come to an end. -/
def scan (h : MemHeap) (size : Nat) : Nat → Nat → Option (Option Nat)
  | 0, _ => none
  | fuel + 1, ptr =>
    if ptr < MEM_SIZE_ALIGNED - size then
      if h.used ptr = 0 ∧ size ≤ h.room ptr then some (some ptr)
      else h.scan size fuel (h.next ptr)
    else some none

/-- The block found becomes a used one, cut where enough is left for another. -/
def take (h : MemHeap) (ptr size : Nat) : MemHeap :=
  if size + SIZEOF_STRUCT_MEM + MIN_SIZE_ALIGNED ≤ h.room ptr then
    let ptr2 := memSize (ptr + SIZEOF_STRUCT_MEM + size)
    ((h.cut ptr ptr2 (h.next ptr)).setUsed ptr 1).linkBack ptr2
  else h.setUsed ptr 1

/-- The loop for the lowest free block. -/
def nextFree (h : MemHeap) : Nat → Nat → Option Nat
  | 0, _ => none
  | fuel + 1, cur =>
    if h.used cur ≠ 0 ∧ cur ≠ MEM_SIZE_ALIGNED then h.nextFree fuel (h.next cur) else some cur

/-- The pointer, or 0, and the heap; `none` when a loop does not come to an end. -/
def mem_malloc (h : MemHeap) (size : Nat) : Option (Nat × MemHeap) :=
  if size = 0 then some (0, h)
  else
    let size := blockSize size
    if MEM_SIZE_ALIGNED < size then some (0, h)
    else (h.scan size MEM_SIZE_ALIGNED h.lfree).bind fun
      | none => some (0, h)
      | some ptr =>
        let h' := h.take ptr size
        let rmem := h.ram + ptr + SIZEOF_STRUCT_MEM
        if ptr = h.lfree then
          (h'.nextFree MEM_SIZE_ALIGNED h'.lfree).map fun cur => (rmem, { h' with lfree := cur })
        else some (rmem, h')

/-- `memset` to zero. -/
def clear (h : MemHeap) (p n : Nat) : MemHeap :=
  { h with bytes := fun a => if p ≤ h.ram + a ∧ h.ram + a < p + n then 0 else h.bytes a }

def mem_calloc (h : MemHeap) (count size : Nat) : Option (Nat × MemHeap) :=
  (h.mem_malloc (memSize (count * size))).map fun (p, h) =>
    (p, if p ≠ 0 then h.clear p (count * size) else h)

end MemHeap

/-- The size of a block: aligned in a `mem_size_t`, and twelve bytes at least. -/
theorem blockSize_eq (size : Nat) : blockSize size = max 12 ((size + 3) / 4 * 4 % 65536) := by
  rw [blockSize, LWIP_MEM_ALIGN_SIZE, MIN_SIZE_ALIGNED, memSize, MEM_ALIGNMENT]
  by_cases hlt : (size + 4 - 1) / 4 * 4 % 65536 < 12
  · rw [if_pos hlt]
    omega
  · rw [if_neg hlt]
    omega

/-- Every block is aligned and holds `MIN_SIZE_ALIGNED` bytes. -/
theorem blockSize_ge (size : Nat) : 12 ≤ blockSize size ∧ blockSize size % 4 = 0 := by
  rw [blockSize_eq]
  omega

/-! ## The fields read back -/

namespace MemHeap

/-- A `struct mem` as a header. -/
def hdr (h : MemHeap) (p : Nat) : Header := ⟨h.next p, h.prev p, decide (h.used p ≠ 0)⟩

end MemHeap

/-- A `mem_size_t` is read back as it was stored. -/
theorem get16_set16 (m : Nat → UInt8) (a : Nat) {v : Nat} (hv : v < 65536) :
    get16 (set16 m a v) a = v := by
  have hne : a ≠ a + 1 := by omega
  simp only [get16, set16, Function.update_self, Function.update_of_ne hne, UInt8.toNat_ofNat']
  omega

/-- Storing one leaves every other byte. -/
theorem set16_of_ne (m : Nat → UInt8) (v : Nat) {a b : Nat} (hb : b < a ∨ a + 2 ≤ b) :
    set16 m a v b = m b := by
  rw [set16, Function.update_of_ne (by omega), Function.update_of_ne (by omega)]

/-- It is read from two bytes. -/
theorem get16_congr {m m' : Nat → UInt8} {a : Nat} (h : m' a = m a) (h' : m' (a + 1) = m (a + 1)) :
    get16 m' a = get16 m a := by
  rw [get16, get16, h, h']

namespace MemHeap

variable (h : MemHeap) (p v : Nat) (b : UInt8)

@[simp] theorem lfree_setUsed : (h.setUsed p b).lfree = h.lfree := rfl

/-- A write to one `struct mem` leaves the bytes around it. -/
theorem bytes_setNext {a : Nat} (ha : a < p ∨ p + 8 ≤ a) : (h.setNext p v).bytes a = h.bytes a :=
  set16_of_ne h.bytes v (by omega)

theorem bytes_setPrev {a : Nat} (ha : a < p ∨ p + 8 ≤ a) : (h.setPrev p v).bytes a = h.bytes a :=
  set16_of_ne h.bytes v (by omega)

/-- `used` is one byte, the fifth. -/
theorem setUsed_of_ne {a : Nat} (ha : a ≠ p + 4) : (h.setUsed p b).bytes a = h.bytes a := by
  simp [setUsed, ha]

/-- `used` lies inside its `struct mem`. -/
theorem bytes_setUsed {a : Nat} (ha : a < p ∨ p + 8 ≤ a) : (h.setUsed p b).bytes a = h.bytes a :=
  setUsed_of_ne h p b (by omega)

variable {h p v}

/-- A header is read from eight bytes. -/
theorem hdr_congr {h' : MemHeap} {q : Nat}
    (heq : ∀ a, q ≤ a → a < q + 8 → h'.bytes a = h.bytes a) : h'.hdr q = h.hdr q := by
  have hnext : h'.next q = h.next q := get16_congr (heq _ (by omega) (by omega))
    (heq _ (by omega) (by omega))
  have hprev : h'.prev q = h.prev q := get16_congr (heq _ (by omega) (by omega))
    (heq _ (by omega) (by omega))
  have hused : h'.used q = h.used q := heq _ (by omega) (by omega)
  rw [hdr, hdr, hnext, hprev, hused]

/-- Linking one header leaves the link of another. -/
theorem next_setNext_of_apart {q : Nat} (hq : q + 8 ≤ p ∨ p + 8 ≤ q) :
    (h.setNext p v).next q = h.next q :=
  congrArg Header.next (hdr_congr fun a _ _ => bytes_setNext h p v (by omega))

/-- What storing each field makes of the header. -/
theorem hdr_setNext (hv : v < 65536) : (h.setNext p v).hdr p = { h.hdr p with next := v } := by
  have hprev : (h.setNext p v).prev p = h.prev p := get16_congr
    (set16_of_ne h.bytes v (by omega)) (set16_of_ne h.bytes v (by omega))
  have hused : (h.setNext p v).used p = h.used p := set16_of_ne h.bytes v (by omega)
  simp only [hdr, hprev, hused]
  simp only [next, setNext, get16_set16 _ _ hv]

theorem hdr_setPrev (hv : v < 65536) : (h.setPrev p v).hdr p = { h.hdr p with prev := v } := by
  have hnext : (h.setPrev p v).next p = h.next p := get16_congr
    (set16_of_ne h.bytes v (by omega)) (set16_of_ne h.bytes v (by omega))
  have hused : (h.setPrev p v).used p = h.used p := set16_of_ne h.bytes v (by omega)
  simp only [hdr, hnext, hused]
  simp only [prev, setPrev, get16_set16 _ _ hv]

/-- Any value but zero marks a block as used. -/
theorem hdr_setUsed : (h.setUsed p b).hdr p = { h.hdr p with used := decide (b ≠ 0) } := by
  have hnext : (h.setUsed p b).next p = h.next p := get16_congr
    (setUsed_of_ne h p b (by omega)) (setUsed_of_ne h p b (by omega))
  have hprev : (h.setUsed p b).prev p = h.prev p := get16_congr
    (setUsed_of_ne h p b (by omega)) (setUsed_of_ne h p b (by omega))
  simp only [hdr, hnext, hprev]
  simp only [used, setUsed, Function.update_self]

/-- The fields of a header are those of the `struct mem`. -/
theorem next_eq_hdr (q : Nat) : h.next q = (h.hdr q).next := rfl

theorem prev_eq_hdr (q : Nat) : h.prev q = (h.hdr q).prev := rfl

/-- `used` is zero exactly in a free block. -/
theorem used_eq_zero_iff (q : Nat) : h.used q = 0 ↔ (h.hdr q).used = false := by
  simp [hdr]

end MemHeap

end NetCamera.Lwip
