import NetCamera.Lib.BlockMap
import NetCamera.Lib.Run

/-!
# NetCamera.Malloc

`malloc.c`: three pools in blocks of 64 bytes, each with a map of one `u32` for a
block.  A block that is handed out is recorded by its number of entries only,
repeated in each of them, and `my_mem_free` clears as many entries as the first
one says.

`pool_ok` is about every run of calls: the map of an initialised pool represents
the live blocks, which are apart, inside the pool and large enough.
-/

namespace NetCamera

open BlockMap Run

/-! ## Pools -/

/-- The pools, by the numbers `malloc.h` gives them. -/
inductive Memx where
  | SRAMIN
  | SRAMEX
  | SRAMCCM
  deriving DecidableEq, Repr

/-- `memblksize[memx]`. -/
def memblksize : Memx → UInt32
  | .SRAMIN => 64
  | .SRAMEX => 64
  | .SRAMCCM => 64

/-- `memsize[memx]`. -/
def memsize : Memx → UInt32
  | .SRAMIN => 100 * 1024
  | .SRAMEX => 28912 * 1024
  | .SRAMCCM => 60 * 1024

/-- `memtblsize[memx]`. -/
def memtblsize (memx : Memx) : UInt32 := memsize memx / memblksize memx

/-- Where the linker puts `mem1base`: inside the address space, and not at the null pointer. -/
structure PoolBase where
  addr : UInt32
  ne_zero : addr ≠ 0
  fits : addr.toNat + (memsize .SRAMIN).toNat ≤ 4294967296

/-- `mallco_dev`: the pools, their maps and whether they are ready. -/
structure MallcoDev where
  mem1base : PoolBase
  memmap : Memx → Nat → UInt32
  memrdy : Memx → UInt8

namespace MallcoDev

/-- `mallco_dev.membase[memx]`. -/
def membase (d : MallcoDev) : Memx → UInt32
  | .SRAMIN => d.mem1base.addr
  | .SRAMEX => 0xC01F4000
  | .SRAMCCM => 0x10000000

/-- Which entries of a map are free. -/
def free (d : MallcoDev) (memx : Memx) (i : Nat) : Bool := d.memmap memx i = 0

/-- The map of one pool is replaced. -/
def setMap (d : MallcoDev) (memx : Memx) (m : Nat → UInt32) : MallcoDev :=
  { d with memmap := Function.update d.memmap memx m }

end MallcoDev

/-! ## Functions -/

/-- `my_mem_init`. -/
def my_mem_init (memx : Memx) (d : MallcoDev) : MallcoDev :=
  { d.setMap memx (fill (d.memmap memx) 0 0 (memtblsize memx).toNat) with
    memrdy := Function.update d.memrdy memx 1 }

/-- `my_mem_malloc`; the loop over `offset` is `search`. -/
def my_mem_malloc (memx : Memx) (size : UInt32) (d : MallcoDev) : UInt32 × MallcoDev :=
  let d := if d.memrdy memx = 0 then my_mem_init memx d else d
  if size = 0 then (0xFFFFFFFF, d)
  else
    let nmemb := size / memblksize memx
    let nmemb := if size % memblksize memx ≠ 0 then nmemb + 1 else nmemb
    match search (d.free memx) nmemb.toNat (memtblsize memx).toNat 0 with
    | some offset => (UInt32.ofNat offset * memblksize memx,
        d.setMap memx (fill (d.memmap memx) offset nmemb nmemb.toNat))
    | none => (0xFFFFFFFF, d)

/-- `my_mem_free`; `nmemb` is an `int`, and for a negative one the loop does nothing. -/
def my_mem_free (memx : Memx) (offset : UInt32) (d : MallcoDev) : UInt8 × MallcoDev :=
  if d.memrdy memx = 0 then (1, my_mem_init memx d)
  else if offset < memsize memx then
    let index := (offset / memblksize memx).toNat
    let nmemb := (d.memmap memx index).toInt32.toInt
    (0, d.setMap memx (fill (d.memmap memx) index 0 nmemb.toNat))
  else (2, d)

/-- `myfree`. -/
def myfree (memx : Memx) (ptr : UInt32) (d : MallcoDev) : MallcoDev :=
  if ptr = 0 then d else (my_mem_free memx (ptr - d.membase memx) d).2

/-- `mymalloc`. -/
def mymalloc (memx : Memx) (size : UInt32) (d : MallcoDev) : UInt32 × MallcoDev :=
  let r := my_mem_malloc memx size d
  if r.1 = 0xFFFFFFFF then (0, r.2) else (d.membase memx + r.1, r.2)

/-! ## What a call changes -/

namespace MallcoDev

@[simp] theorem membase_setMap (d : MallcoDev) (memx : Memx) (m : Nat → UInt32) :
    (d.setMap memx m).membase = d.membase := by
  funext k
  cases k <;> rfl

@[simp] theorem memrdy_setMap (d : MallcoDev) (memx : Memx) (m : Nat → UInt32) :
    (d.setMap memx m).memrdy = d.memrdy := rfl

@[simp] theorem memmap_setMap_self (d : MallcoDev) (memx : Memx) (m : Nat → UInt32) :
    (d.setMap memx m).memmap memx = m := by
  simp [setMap]

theorem memmap_setMap_of_ne (d : MallcoDev) {memx k : Memx} (h : k ≠ memx) (m : Nat → UInt32) :
    (d.setMap memx m).memmap k = d.memmap k := by
  simp [setMap, h]

@[simp] theorem free_iff {d : MallcoDev} {memx : Memx} {i : Nat} :
    d.free memx i = true ↔ d.memmap memx i = 0 := by
  simp [free]

/-- The pointer to the block of entry `i`. -/
def ptrAt (d : MallcoDev) (memx : Memx) (i : Nat) : UInt32 :=
  d.membase memx + UInt32.ofNat i * memblksize memx

end MallcoDev

/-- The number of entries of the map of a pool. -/
def mapLen (memx : Memx) : Nat := (memtblsize memx).toNat

/-- The entries a block takes: its size in units of 64 bytes, rounded up. -/
def units (size : UInt32) : Nat := (size.toNat + 63) / 64

theorem toNat_memblksize (memx : Memx) : (memblksize memx).toNat = 64 := by
  cases memx <;> rfl

theorem mapLen_mul (memx : Memx) : 64 * mapLen memx = (memsize memx).toNat := by
  cases memx <;> rfl

theorem memsize_lt (memx : Memx) : (memsize memx).toNat < 67108864 := by
  cases memx <;> decide

theorem units_pos {size : UInt32} (h : size ≠ 0) : 0 < units size := by
  have hne : size.toNat ≠ 0 := fun h0 => h (UInt32.toNat_inj.mp h0)
  unfold units
  omega

/-- `nmemb`. -/
theorem toNat_nmemb (memx : Memx) (size : UInt32) :
    (if size % memblksize memx ≠ 0 then size / memblksize memx + 1
      else size / memblksize memx).toNat = units size := by
  have hlt := size.toNat_lt
  have hdiv : (size / memblksize memx).toNat = size.toNat / 64 := by
    rw [UInt32.toNat_div, toNat_memblksize]
  have hmod : size % memblksize memx ≠ 0 ↔ size.toNat % 64 ≠ 0 := by
    rw [ne_eq, ← UInt32.toNat_inj, UInt32.toNat_mod, toNat_memblksize]
    rfl
  have hone : (1 : UInt32).toNat = 1 := rfl
  simp only [hmod]
  unfold units
  split
  · rw [UInt32.toNat_add, hdiv, hone]
    omega
  · rw [hdiv]
    omega

/-- The offset of entry `i`. -/
theorem toNat_offset {memx : Memx} {i : Nat} (h : i < mapLen memx) :
    (UInt32.ofNat i * memblksize memx).toNat = 64 * i := by
  have hsize := mapLen_mul memx
  have hlt := memsize_lt memx
  rw [UInt32.toNat_mul, UInt32.toNat_ofNat', toNat_memblksize]
  omega

/-- A pool lies inside the address space. -/
theorem membase_fits (d : MallcoDev) (memx : Memx) :
    d.membase memx ≠ 0 ∧ (d.membase memx).toNat + (memsize memx).toNat ≤ 4294967296 := by
  cases memx with
  | SRAMIN => exact ⟨d.mem1base.ne_zero, d.mem1base.fits⟩
  | SRAMEX =>
      exact (by decide : (0xC01F4000 : UInt32) ≠ 0 ∧
        (0xC01F4000 : UInt32).toNat + (memsize .SRAMEX).toNat ≤ 4294967296)
  | SRAMCCM =>
      exact (by decide : (0x10000000 : UInt32) ≠ 0 ∧
        (0x10000000 : UInt32).toNat + (memsize .SRAMCCM).toNat ≤ 4294967296)

theorem toNat_ptrAt (d : MallcoDev) {memx : Memx} {i : Nat} (h : i < mapLen memx) :
    (d.ptrAt memx i).toNat = (d.membase memx).toNat + 64 * i := by
  have hsize := mapLen_mul memx
  have hfits := (membase_fits d memx).2
  rw [MallcoDev.ptrAt, UInt32.toNat_add, toNat_offset h]
  omega

theorem ptrAt_ne_zero (d : MallcoDev) {memx : Memx} {i : Nat} (h : i < mapLen memx) :
    d.ptrAt memx i ≠ 0 := by
  have hnat := toNat_ptrAt d h
  have hbase : (d.membase memx).toNat ≠ 0 :=
    fun h0 => (membase_fits d memx).1 (UInt32.toNat_inj.mp h0)
  intro hptr
  rw [hptr] at hnat
  have hzero : (0 : UInt32).toNat = 0 := rfl
  omega

/-! ## Allocation -/

/-- The pool after the block of entry `i` was marked. -/
def MallcoDev.mark (d : MallcoDev) (memx : Memx) (i : Nat) (size : UInt32) : MallcoDev :=
  d.setMap memx (fill (d.memmap memx) i (UInt32.ofNat (units size)) (units size))

namespace MallcoDev

@[simp] theorem membase_mark (d : MallcoDev) (memx : Memx) (i : Nat) (size : UInt32) :
    (d.mark memx i size).membase = d.membase := d.membase_setMap memx _

theorem memmap_mark (d : MallcoDev) (memx : Memx) (i : Nat) (size : UInt32) (j : Nat) :
    (d.mark memx i size).memmap memx j =
      if i ≤ j ∧ j < i + units size then UInt32.ofNat (units size) else d.memmap memx j := by
  rw [mark, memmap_setMap_self, fill_apply]

/-- The first entry of a block. -/
theorem memmap_mark_self (d : MallcoDev) (memx : Memx) (i : Nat) {size : UInt32} (h : size ≠ 0) :
    (d.mark memx i size).memmap memx i = UInt32.ofNat (units size) := by
  have hpos := units_pos h
  rw [memmap_mark, if_pos (by omega)]

end MallcoDev

/-- A pool has room for a block of this size. -/
def HasRoom (d : MallcoDev) (memx : Memx) (size : UInt32) : Prop :=
  size ≠ 0 ∧ Room (d.free memx) (units size) (mapLen memx)

/-- The offset of an entry is not the mark of an error. -/
theorem offset_ne {memx : Memx} {i : Nat} (h : i < mapLen memx) :
    UInt32.ofNat i * memblksize memx ≠ 0xFFFFFFFF := by
  intro heq
  have hnat := toNat_offset h
  have hsize := mapLen_mul memx
  have hlt := memsize_lt memx
  have hmax : (0xFFFFFFFF : UInt32).toNat = 4294967295 := rfl
  rw [heq] at hnat
  omega

section allocation

variable {d : MallcoDev} {memx : Memx} {size : UInt32}

theorem my_mem_malloc_zero (hrdy : d.memrdy memx ≠ 0) :
    my_mem_malloc memx 0 d = (0xFFFFFFFF, d) := by
  simp [my_mem_malloc, hrdy]

/-- The loop finds no run. -/
theorem my_mem_malloc_of_none (hrdy : d.memrdy memx ≠ 0) (hzero : size ≠ 0)
    (hs : search (d.free memx) (units size) (mapLen memx) 0 = none) :
    my_mem_malloc memx size d = (0xFFFFFFFF, d) := by
  have hnmemb := toNat_nmemb memx size
  rw [mapLen] at hs
  simp only [my_mem_malloc, hrdy, hzero, if_false, hnmemb, hs]

/-- The loop finds the run from entry `i` on. -/
theorem my_mem_malloc_of_some (hrdy : d.memrdy memx ≠ 0) (hzero : size ≠ 0) {i : Nat}
    (hs : search (d.free memx) (units size) (mapLen memx) 0 = some i) :
    my_mem_malloc memx size d = (UInt32.ofNat i * memblksize memx, d.mark memx i size) := by
  have hnmemb := toNat_nmemb memx size
  rw [mapLen] at hs
  simp only [my_mem_malloc, hrdy, hzero, if_false, hnmemb, hs]
  rw [MallcoDev.mark, ← hnmemb, UInt32.ofNat_toNat]

/-- **What `my_mem_malloc` does** on a pool that is ready: it marks the highest run of the pool
that is free and long enough and returns its offset, or there is none. -/
theorem my_mem_malloc_cases (hrdy : d.memrdy memx ≠ 0) (size : UInt32) :
    (¬ HasRoom d memx size ∧ my_mem_malloc memx size d = (0xFFFFFFFF, d)) ∨
      (HasRoom d memx size ∧ ∃ i, HighestRun (d.free memx) (units size) (mapLen memx) i ∧
        i < mapLen memx ∧
        my_mem_malloc memx size d = (UInt32.ofNat i * memblksize memx, d.mark memx i size)) := by
  by_cases hzero : size = 0
  · exact Or.inl ⟨fun h => h.1 hzero, hzero ▸ my_mem_malloc_zero hrdy⟩
  · have hpos := units_pos hzero
    cases hs : search (d.free memx) (units size) (mapLen memx) 0 with
    | none =>
        exact Or.inl ⟨fun h => (search_eq_none_iff hpos).mp hs h.2,
          my_mem_malloc_of_none hrdy hzero hs⟩
    | some i =>
        have hrun := (search_eq_some_iff hpos).mp hs
        have hle := hrun.1.1
        exact Or.inr ⟨⟨hzero, i, hrun.1⟩, i, hrun, by omega, my_mem_malloc_of_some hrdy hzero hs⟩

theorem mymalloc_eq (memx : Memx) (size : UInt32) (d : MallcoDev) : mymalloc memx size d =
    (if (my_mem_malloc memx size d).1 = 0xFFFFFFFF then 0
      else d.membase memx + (my_mem_malloc memx size d).1, (my_mem_malloc memx size d).2) := by
  rw [mymalloc]
  split <;> rfl

/-- **What `mymalloc` does** on a pool that is ready: it marks a free run of the pool and
returns a pointer to it, or there is none. -/
theorem mymalloc_cases (hrdy : d.memrdy memx ≠ 0) (size : UInt32) :
    (¬ HasRoom d memx size ∧ mymalloc memx size d = (0, d)) ∨
      (HasRoom d memx size ∧ ∃ i, i + units size ≤ mapLen memx ∧ i < mapLen memx ∧
        (∀ j, i ≤ j → j < i + units size → d.memmap memx j = 0) ∧
        mymalloc memx size d = (d.ptrAt memx i, d.mark memx i size)) := by
  rw [mymalloc_eq]
  obtain ⟨hroom, heq⟩ | ⟨hroom, i, hrun, hi, heq⟩ := my_mem_malloc_cases hrdy size
  · exact Or.inl ⟨hroom, by rw [heq, if_pos rfl]⟩
  · refine Or.inr ⟨hroom, i, hrun.1.1, hi, fun j hge hlt => ?_, ?_⟩
    · exact MallcoDev.free_iff.mp (hrun.1.2 j hge hlt)
    · rw [heq, if_neg (offset_ne hi)]
      rfl

/-- The null pointer says that there is no room. -/
theorem mymalloc_eq_zero_iff (hrdy : d.memrdy memx ≠ 0) (size : UInt32) :
    (mymalloc memx size d).1 = 0 ↔ ¬ HasRoom d memx size := by
  obtain ⟨hroom, heq⟩ | ⟨hroom, i, -, hi, -, heq⟩ := mymalloc_cases hrdy size
  · simp [heq, hroom]
  · simp [heq, hroom, ptrAt_ne_zero d hi]

theorem hasRoom_of_ne_zero (hrdy : d.memrdy memx ≠ 0) (h : (mymalloc memx size d).1 ≠ 0) :
    HasRoom d memx size :=
  not_not.mp fun hnone => h ((mymalloc_eq_zero_iff hrdy size).mpr hnone)

/-- What is asked of a call: it fails only where it must and then changes nothing, and otherwise
takes the highest run that is long enough. -/
structure MallocExact (memx : Memx) (size : UInt32) (d : MallcoDev) : Prop where
  /-- it returns the null pointer for no bytes, and where no run is free -/
  fails : (mymalloc memx size d).1 = 0 ↔
    size = 0 ∨ ∀ start, ¬ FreeRun (d.free memx) (units size) (memtblsize memx).toNat start
  /-- then the pool is as before -/
  refused : (mymalloc memx size d).1 = 0 → (mymalloc memx size d).2 = d
  /-- otherwise the block is the highest run -/
  highest : (mymalloc memx size d).1 ≠ 0 →
    ∃ start, HighestRun (d.free memx) (units size) (memtblsize memx).toNat start ∧
      (mymalloc memx size d).1.toNat =
        (d.membase memx).toNat + (memblksize memx).toNat * start ∧
      ∀ i, ((mymalloc memx size d).2.memmap memx i) =
        if start ≤ i ∧ i < start + units size then UInt32.ofNat (units size)
        else d.memmap memx i
  /-- and more blocks than the pool has are refused -/
  oversized : (memtblsize memx).toNat < units size → mymalloc memx size d = (0, d)

/-- **`mymalloc` fails only when it must.** -/
theorem mymalloc_exact (hrdy : d.memrdy memx ≠ 0) (size : UInt32) : MallocExact memx size d := by
  have hblk := toNat_memblksize memx
  obtain ⟨hroom, heq⟩ | ⟨hroom, i, hrun, hi, heq⟩ := my_mem_malloc_cases hrdy size
  · have hnull : mymalloc memx size d = (0, d) := by rw [mymalloc_eq, heq, if_pos rfl]
    constructor
    · rw [hnull]
      refine iff_of_true rfl ?_
      by_cases hzero : size = 0
      · exact Or.inl hzero
      · exact Or.inr fun start hfree => hroom ⟨hzero, start, hfree⟩
    · rw [hnull]
      exact fun _ => rfl
    · rw [hnull]
      exact fun hne => absurd rfl hne
    · exact fun _ => hnull
  · have hptr : mymalloc memx size d = (d.ptrAt memx i, d.mark memx i size) := by
      rw [mymalloc_eq, heq, if_neg (offset_ne hi)]
      rfl
    have hne := ptrAt_ne_zero d hi
    constructor
    · rw [hptr]
      refine iff_of_false hne (not_or.mpr ⟨hroom.1, fun hnone => hnone i hrun.1⟩)
    · rw [hptr]
      exact fun hzero => absurd hzero hne
    · rw [hptr, hblk]
      exact fun _ => ⟨i, hrun, toNat_ptrAt d hi, d.memmap_mark memx i size⟩
    · intro hbig
      have hle := hrun.1.1
      unfold mapLen at hle
      omega

/-- 129 bytes of a pool with two entries in use: three entries, below both of them. -/
theorem mymalloc_exact_used :
    MallocExact .SRAMCCM 129 ⟨⟨0x20000000, by decide, by decide⟩,
      fun _ i => if i = 957 ∨ i = 954 then 1 else 0, fun _ => 1⟩ :=
  mymalloc_exact (by decide) 129

end allocation

/-! ## Release -/

/-- A small number read back through an `int`. -/
theorem toNat_toInt32_ofNat {n : Nat} (h : n < 2147483648) :
    (UInt32.ofNat n).toInt32.toInt.toNat = n := by
  have hnat : (UInt32.ofNat n).toBitVec.toNat = n :=
    UInt32.toNat_ofNat_of_lt (Nat.lt_of_lt_of_le h (by decide))
  rw [← Int32.toInt_toBitVec, UInt32.toBitVec_toInt32, BitVec.toInt_eq_toNat_bmod, hnat,
    Int.bmod_eq_of_le (by omega) (by omega)]
  exact Int.toNat_natCast n

/-- **What `myfree` does** with the block that the map records from entry `i` on. -/
theorem myfree_ptrAt {d : MallcoDev} {memx : Memx} (hrdy : d.memrdy memx ≠ 0) {i n : Nat}
    (hi : i < mapLen memx) (hn : n ≤ mapLen memx)
    (hentry : d.memmap memx i = UInt32.ofNat n) :
    myfree memx (d.ptrAt memx i) d = d.setMap memx (fill (d.memmap memx) i 0 n) := by
  have hsize := mapLen_mul memx
  have hlt := memsize_lt memx
  have hoff : d.ptrAt memx i - d.membase memx = UInt32.ofNat i * memblksize memx := by
    rw [MallcoDev.ptrAt, UInt32.add_comm, UInt32.add_sub_cancel]
  have hin : UInt32.ofNat i * memblksize memx < memsize memx := by
    rw [UInt32.lt_iff_toNat_lt, toNat_offset hi]
    omega
  have hindex : (UInt32.ofNat i * memblksize memx / memblksize memx).toNat = i := by
    rw [UInt32.toNat_div, toNat_offset hi, toNat_memblksize]
    omega
  have hint := toNat_toInt32_ofNat (by omega : n < 2147483648)
  rw [myfree, if_neg (ptrAt_ne_zero d hi), hoff, my_mem_free, if_neg hrdy, if_pos hin]
  simp only [hindex, hentry, hint]

/-! ## Runs of calls -/

/-- A block that is live: the pointer `mymalloc` returned and the size it was asked for. -/
structure Alloc where
  ptr : UInt32
  size : UInt32
  deriving DecidableEq, Repr

/-- The pools and the live blocks of each. -/
structure Heap where
  dev : MallcoDev
  live : Memx → List Alloc

/-- A call of the allocator. -/
inductive MemCall where
  | mymalloc (memx : Memx) (size : UInt32)
  | myfree (memx : Memx) (ptr : UInt32)
  deriving DecidableEq, Repr

/-- One call; only pointers that are live are freed. -/
def Heap.step (h : Heap) : MemCall → Option Heap
  | .mymalloc memx size =>
    let r := NetCamera.mymalloc memx size h.dev
    some ⟨r.2, if r.1 = 0 then h.live
      else Function.update h.live memx (⟨r.1, size⟩ :: h.live memx)⟩
  | .myfree memx ptr =>
    if ∃ a ∈ h.live memx, a.ptr = ptr then
      some ⟨NetCamera.myfree memx ptr h.dev,
        Function.update h.live memx ((h.live memx).eraseP (·.ptr = ptr))⟩
    else none

/-- The entries of a live block, counted from its pointer and its size. -/
def Alloc.block (a : Alloc) (memx : Memx) (d : MallcoDev) : Block :=
  ⟨(a.ptr.toNat - (d.membase memx).toNat) / 64, units a.size⟩

/-- **The map of a pool represents the live blocks.** -/
structure PoolOk (memx : Memx) (d : MallcoDev) (live : List Alloc) : Prop where
  /-- a block starts on a boundary of the pool -/
  start : ∀ a ∈ live,
    a.ptr.toNat = (d.membase memx).toNat + (memblksize memx).toNat * (a.block memx d).start
  /-- and covers what was asked for -/
  covers : ∀ a ∈ live, a.size.toNat ≤ (memblksize memx).toNat * (a.block memx d).len
  /-- inside the pool -/
  inside : ∀ a ∈ live, a.ptr.toNat + (memblksize memx).toNat * (a.block memx d).len ≤
    (d.membase memx).toNat + (memsize memx).toNat
  /-- no two blocks share a byte -/
  disjoint : live.Pairwise fun a b =>
    a.ptr.toNat + (memblksize memx).toNat * (a.block memx d).len ≤ b.ptr.toNat ∨
      b.ptr.toNat + (memblksize memx).toNat * (b.block memx d).len ≤ a.ptr.toNat
  /-- each entry of a block holds the number of its entries -/
  entries : ∀ a ∈ live, ∀ i, (a.block memx d).Has i →
    (d.memmap memx i).toNat = (a.block memx d).len
  /-- and every other entry holds zero -/
  rest : ∀ i < (memtblsize memx).toNat, (∀ a ∈ live, ¬ (a.block memx d).Has i) →
    d.memmap memx i = 0
  /-- freeing a live block zeroes its entries and no others -/
  freed : ∀ a ∈ live, ∀ i, (myfree memx a.ptr d).memmap memx i =
    if (a.block memx d).Has i then 0 else d.memmap memx i

namespace Alloc

/-- Blocks are counted from the base of their pool, which no call moves. -/
theorem block_of_membase {d d' : MallcoDev} (h : d'.membase = d.membase) (memx : Memx) :
    (fun a : Alloc => a.block memx d') = fun a => a.block memx d := by
  simp only [block, h]

theorem block_ptrAt (d : MallcoDev) {memx : Memx} {i : Nat} (h : i < mapLen memx)
    (size : UInt32) : (⟨d.ptrAt memx i, size⟩ : Alloc).block memx d = ⟨i, units size⟩ := by
  have hnat := toNat_ptrAt d h
  have hstart : ((d.ptrAt memx i).toNat - (d.membase memx).toNat) / 64 = i := by omega
  exact congrArg (fun k => Block.mk k (units size)) hstart

end Alloc

/-- What every call keeps of a pool. -/
structure PoolInv (memx : Memx) (d : MallcoDev) (live : List Alloc) : Prop where
  ready : d.memrdy memx ≠ 0
  ptr : ∀ a ∈ live, ∃ i < mapLen memx, a.ptr = d.ptrAt memx i
  blocks : Represents 0 UInt32.ofNat (mapLen memx) (d.memmap memx)
    (live.map fun a => a.block memx d)

/-- Base, map and readiness of a pool are the same. -/
structure SamePool (memx : Memx) (d d' : MallcoDev) : Prop where
  membase : d'.membase = d.membase
  memmap : d'.memmap memx = d.memmap memx
  memrdy : d'.memrdy memx = d.memrdy memx

section calls

variable {d d' : MallcoDev} {memx k : Memx} {live : List Alloc}

theorem SamePool.setMap (h : memx ≠ k) (m : Nat → UInt32) : SamePool memx d (d.setMap k m) :=
  ⟨d.membase_setMap k m, d.memmap_setMap_of_ne h m, rfl⟩

theorem SamePool.my_mem_init (h : memx ≠ k) : SamePool memx d (my_mem_init k d) :=
  ⟨d.membase_setMap k (fill (d.memmap k) 0 0 (mapLen k)), d.memmap_setMap_of_ne h _,
    Function.update_of_ne h 1 d.memrdy⟩

theorem SamePool.trans {d'' : MallcoDev} (h : SamePool memx d d') (h' : SamePool memx d' d'') :
    SamePool memx d d'' :=
  ⟨h'.membase.trans h.membase, h'.memmap.trans h.memmap, h'.memrdy.trans h.memrdy⟩

@[simp] theorem memrdy_my_mem_init (memx : Memx) (d : MallcoDev) :
    (my_mem_init memx d).memrdy memx = 1 := Function.update_self ..

@[simp] theorem memmap_my_mem_init (memx : Memx) (d : MallcoDev) :
    (my_mem_init memx d).memmap memx = fill (d.memmap memx) 0 0 (mapLen memx) :=
  d.memmap_setMap_self memx _

/-- A pool that is not ready is initialised first. -/
theorem mymalloc_of_not_ready (h : d.memrdy memx = 0) (size : UInt32) :
    mymalloc memx size d = mymalloc memx size (my_mem_init memx d) := by
  have hrdy : (NetCamera.my_mem_init memx d).memrdy memx ≠ 0 := by simp
  simp only [mymalloc, my_mem_malloc, h, hrdy, if_true, if_false]
  rfl

/-- `mymalloc` leaves the other pools alone. -/
theorem samePool_mymalloc (h : memx ≠ k) (size : UInt32) (d : MallcoDev) :
    SamePool memx d (mymalloc k size d).2 := by
  have hready : ∀ d : MallcoDev, d.memrdy k ≠ 0 → SamePool memx d (mymalloc k size d).2 := by
    intro d hrdy
    obtain ⟨-, heq⟩ | ⟨-, i, -, -, -, heq⟩ := mymalloc_cases hrdy size
    · rw [heq]
      exact ⟨rfl, rfl, rfl⟩
    · rw [heq]
      exact SamePool.setMap h _
  by_cases hrdy : d.memrdy k = 0
  · rw [mymalloc_of_not_ready hrdy]
    exact (SamePool.my_mem_init h).trans (hready _ (by simp))
  · exact hready d hrdy

/-- `myfree` leaves the other pools alone. -/
theorem samePool_myfree (h : memx ≠ k) (ptr : UInt32) (d : MallcoDev) :
    SamePool memx d (myfree k ptr d) := by
  unfold myfree my_mem_free
  split_ifs
  · exact ⟨rfl, rfl, rfl⟩
  · exact SamePool.my_mem_init h
  · exact SamePool.setMap h _
  · exact ⟨rfl, rfl, rfl⟩

theorem PoolInv.same (h : PoolInv memx d live) (hs : SamePool memx d d') :
    PoolInv memx d' live where
  ready := hs.memrdy ▸ h.ready
  ptr a ha := by simpa only [MallcoDev.ptrAt, hs.membase] using h.ptr a ha
  blocks := by
    rw [hs.memmap, Alloc.block_of_membase hs.membase]
    exact h.blocks

/-- An initialised pool has no live blocks. -/
theorem PoolInv.init (memx : Memx) (d : MallcoDev) : PoolInv memx (my_mem_init memx d) [] where
  ready := by simp
  ptr := by simp
  blocks := by
    rw [memmap_my_mem_init]
    exact Represents.nil fun i hi => by rw [fill_apply, if_pos (by omega)]

/-- The number of entries of a block fits an entry. -/
theorem toNat_ofNat_of_le {n : Nat} (h : n ≤ mapLen memx) : (UInt32.ofNat n).toNat = n := by
  have hsize := mapLen_mul memx
  have hlt := memsize_lt memx
  exact UInt32.toNat_ofNat_of_lt (Nat.lt_of_le_of_lt h (by unfold UInt32.size; omega))

theorem ofNat_ne_zero {n : Nat} (hpos : 0 < n) (hn : n ≤ mapLen memx) : UInt32.ofNat n ≠ 0 := by
  intro h0
  have hnat := toNat_ofNat_of_le hn
  rw [h0] at hnat
  exact Nat.ne_of_lt hpos hnat

/-- `mymalloc` adds the block it returns. -/
theorem PoolInv.mymalloc (h : PoolInv memx d live) (size : UInt32) :
    PoolInv memx (NetCamera.mymalloc memx size d).2
      (if (NetCamera.mymalloc memx size d).1 = 0 then live
        else ⟨(NetCamera.mymalloc memx size d).1, size⟩ :: live) := by
  obtain ⟨-, heq⟩ | ⟨hroom, i, hle, hi, hfree, heq⟩ := mymalloc_cases h.ready size
  · simpa [heq] using h
  · rw [heq, if_neg (ptrAt_ne_zero d hi)]
    constructor
    · exact h.ready
    · intro a ha
      cases List.mem_cons.mp ha with
      | inl hnew => exact ⟨i, hi, by simp [hnew, MallcoDev.ptrAt]⟩
      | inr hold => simpa [MallcoDev.ptrAt] using h.ptr a hold
    · rw [Alloc.block_of_membase (d.membase_mark memx i size), List.map_cons,
        Alloc.block_ptrAt d hi, MallcoDev.mark, MallcoDev.memmap_setMap_self]
      exact h.blocks.mark (b := ⟨i, units size⟩) (fun n => ofNat_ne_zero) (units_pos hroom.1) hle
        fun j hj => hfree j hj.1 hj.2

/-- What `myfree` clears of a live block. -/
theorem PoolInv.myfree_eq (h : PoolInv memx d live) {a : Alloc} (ha : a ∈ live) :
    NetCamera.myfree memx a.ptr d = d.setMap memx
      (fill (d.memmap memx) (a.block memx d).start 0 (a.block memx d).len) := by
  obtain ⟨i, hi, hptr⟩ := h.ptr a ha
  have hblock : a.block memx d = ⟨i, units a.size⟩ := by
    rw [← Alloc.block_ptrAt d hi, ← hptr]
  have hmem : a.block memx d ∈ live.map fun a => a.block memx d := List.mem_map_of_mem ha
  have hin := h.blocks.inside _ hmem
  have hentry := h.blocks.entry_start hmem
  rw [hblock] at hin hentry ⊢
  have hle : units a.size ≤ mapLen memx := Nat.le_trans (Nat.le_add_left _ _) hin
  rw [hptr, myfree_ptrAt h.ready hi hle hentry]

/-- `myfree` of a live pointer takes its block out. -/
theorem PoolInv.myfree (h : PoolInv memx d live) {ptr : UInt32} (hlive : ∃ a ∈ live, a.ptr = ptr) :
    PoolInv memx (NetCamera.myfree memx ptr d) (live.eraseP (·.ptr = ptr)) := by
  obtain ⟨a₀, ha₀, hptr₀⟩ := hlive
  obtain ⟨a, l₁, l₂, -, hptr, hlive, herase⟩ :=
    List.exists_of_eraseP ha₀ (p := fun a => decide (a.ptr = ptr)) (by simpa using hptr₀)
  have hperm : live.Perm (a :: (l₁ ++ l₂)) := hlive ▸ List.perm_middle
  have hsub : ∀ c ∈ l₁ ++ l₂, c ∈ live := fun c hc => hperm.mem_iff.mpr (List.mem_cons_of_mem a hc)
  have heq := h.myfree_eq (hperm.mem_iff.mpr List.mem_cons_self)
  rw [of_decide_eq_true hptr] at heq
  rw [heq, herase]
  constructor
  · exact h.ready
  · intro c hc
    simpa [MallcoDev.ptrAt] using h.ptr c (hsub c hc)
  · rw [Alloc.block_of_membase (d.membase_setMap memx _), MallcoDev.memmap_setMap_self]
    exact (h.blocks.perm (hperm.map _)).clear

/-- One call keeps every pool in order. -/
theorem PoolInv.step {h h' : Heap} {c : MemCall} (hinv : PoolInv memx h.dev (h.live memx))
    (hstep : h.step c = some h') : PoolInv memx h'.dev (h'.live memx) := by
  cases c with
  | mymalloc k size =>
      cases hstep
      by_cases hk : memx = k
      · subst hk
        convert hinv.mymalloc size using 1
        split <;> simp
      · have hlive : (if (NetCamera.mymalloc k size h.dev).1 = 0 then h.live
            else Function.update h.live k (⟨(NetCamera.mymalloc k size h.dev).1, size⟩ ::
              h.live k)) memx = h.live memx := by
          split <;> simp [hk]
        simp only [hlive]
        exact hinv.same (samePool_mymalloc hk size h.dev)
  | myfree k ptr =>
      simp only [Heap.step] at hstep
      split at hstep
      · next hlive =>
        cases hstep
        by_cases hk : memx = k
        · subst hk
          simpa using hinv.myfree hlive
        · simpa [hk] using hinv.same (samePool_myfree hk ptr h.dev)
      · cases hstep

/-- The invariant in bytes and entries. -/
theorem PoolInv.ok (h : PoolInv memx d live) : PoolOk memx d live := by
  have hblk := toNat_memblksize memx
  have hlen := mapLen_mul memx
  have hmem : ∀ a ∈ live, a.block memx d ∈ live.map fun a => a.block memx d :=
    fun a ha => List.mem_map_of_mem ha
  have hstart : ∀ a ∈ live, a.ptr.toNat = (d.membase memx).toNat + 64 * (a.block memx d).start := by
    intro a ha
    obtain ⟨i, hi, hptr⟩ := h.ptr a ha
    have hblock := Alloc.block_ptrAt d hi a.size
    rw [← hptr] at hblock
    rw [hblock, hptr]
    exact toNat_ptrAt d hi
  constructor
  · rw [hblk]
    exact hstart
  · intro a ha
    have hunits : (a.block memx d).len = units a.size := rfl
    rw [hblk, hunits]
    unfold units
    omega
  · intro a ha
    have hin := h.blocks.inside _ (hmem a ha)
    have hptr := hstart a ha
    rw [hblk]
    omega
  · rw [hblk]
    refine (List.pairwise_map.mp h.blocks.apart).imp_of_mem fun {a b} ha hb hapart => ?_
    have hptr := hstart a ha
    have hptr' := hstart b hb
    unfold Block.Apart at hapart
    omega
  · intro a ha i hi
    have hin := h.blocks.inside _ (hmem a ha)
    have hle : (a.block memx d).len ≤ mapLen memx := by omega
    rw [h.blocks.entries _ (hmem a ha) i hi, toNat_ofNat_of_le hle]
  · intro i hi hout
    exact h.blocks.rest i hi (by simpa using hout)
  · intro a ha i
    rw [h.myfree_eq ha, MallcoDev.memmap_setMap_self, fill_apply]
    rfl

end calls

/-- **The allocator keeps its map**: after any calls on an initialised pool, the map
represents the live blocks. -/
theorem pool_ok {memx : Memx} {d : MallcoDev} {cs : List MemCall} {h : Heap}
    (hrun : run Heap.step ⟨my_mem_init memx d, fun _ => []⟩ cs = some h) :
    PoolOk memx h.dev (h.live memx) := by
  have hinit : PoolInv memx (my_mem_init memx d) [] := PoolInv.init memx d
  exact (run_invariant (I := fun h => PoolInv memx h.dev (h.live memx))
    (fun _ _ _ hinv hstep => hinv.step hstep) hinit hrun).ok

/-- Two blocks of equal size side by side, one of which is freed again. -/
theorem pool_ok_two :
    ∃ (d : MallcoDev) (h : Heap),
      run Heap.step ⟨my_mem_init .SRAMIN d, fun _ => []⟩
        [.mymalloc .SRAMIN 100, .mymalloc .SRAMIN 65, .myfree .SRAMIN (d.ptrAt .SRAMIN 1598)] =
        some h ∧ PoolOk .SRAMIN h.dev (h.live .SRAMIN) := by
  let d : MallcoDev := ⟨⟨0x20000000, by decide, by decide⟩, fun _ _ => 7, fun _ => 0⟩
  obtain ⟨h, hrun⟩ := Option.isSome_iff_exists.mp (by decide +kernel :
    (run Heap.step ⟨my_mem_init .SRAMIN d, fun _ => []⟩
      [.mymalloc .SRAMIN 100, .mymalloc .SRAMIN 65,
        .myfree .SRAMIN (d.ptrAt .SRAMIN 1598)]).isSome = true)
  exact ⟨d, h, hrun, pool_ok hrun⟩

end NetCamera
