import Mathlib.Data.List.Nodup
import Mathlib.Data.List.Pairwise
import NetCamera.Malloc

/-!
# NetCamera.Realloc

`myrealloc`: a new block, a copy of as many bytes as it has, and the old block
freed.

The copy reads past the end of a smaller old block, into whatever lies behind it,
the new block included.  What it writes lies in the new block alone, and the old
block is still marked while the new one is looked for, so the two are apart: the
bytes of the old block arrive as they were, whichever of them is the higher one.
Where nothing answers behind the old block any more, the read is a bus fault, and
`myrealloc` does not come back.

`realloc_ok_iff` is about every state that calls of the allocator and assignments
to RAM lead to, and about any map of the addresses that answer.
-/

namespace NetCamera

open BlockMap Run

/-! ## Functions -/

/-- The byte at each address, or nothing where no device answers. -/
abbrev Memory := UInt32 → Option UInt8

/-- `mymemcpy`: `*xdes++=*xsrc++`, `n` times; nothing is left of a run into a bus fault, whose
handler loops. -/
def mymemcpy (des src : UInt32) : Nat → Memory → Option Memory
  | 0, m => some m
  | n + 1, m =>
    match m src, m des with
    | some b, some _ => mymemcpy (des + 1) (src + 1) n (Function.update m des (some b))
    | _, _ => none

/-- `myrealloc`. -/
def myrealloc (memx : Memx) (ptr : UInt32) (size : UInt32) (d : MallcoDev) (m : Memory) :
    Option (UInt32 × MallcoDev × Memory) :=
  let r := my_mem_malloc memx size d
  if r.1 = 0xFFFFFFFF then some (0, r.2, m)
  else (mymemcpy (r.2.membase memx + r.1) ptr size.toNat m).map fun m =>
    (r.2.membase memx + r.1, myfree memx ptr r.2, m)

/-! ## What answers -/

/-- The `n` addresses from `p` on answer. -/
def Mapped (m : Memory) (p : UInt32) (n : Nat) : Prop :=
  ∀ k < n, (m (p + UInt32.ofNat k)).isSome = true

/-- An address behind a pointer. -/
theorem toNat_add_ofNat {p : UInt32} {k : Nat} (h : p.toNat + k < 4294967296) :
    (p + UInt32.ofNat k).toNat = p.toNat + k := by
  rw [UInt32.toNat_add, UInt32.toNat_ofNat']
  omega

theorem toNat_add_one {p : UInt32} (h : p.toNat + 1 < 4294967296) :
    (p + 1).toNat = p.toNat + 1 := toNat_add_ofNat (k := 1) h

theorem add_ofNat_zero (p : UInt32) : p + UInt32.ofNat 0 = p := UInt32.add_zero p

theorem add_one_add_ofNat (p : UInt32) (k : Nat) :
    p + 1 + UInt32.ofNat k = p + UInt32.ofNat (k + 1) := by
  rw [UInt32.ofNat_add, UInt32.add_comm (UInt32.ofNat k), ← UInt32.add_assoc]
  rfl

/-- One address, and the ones behind it. -/
theorem mapped_succ {m : Memory} {p : UInt32} {n : Nat} :
    Mapped m p (n + 1) ↔ (m p).isSome = true ∧ Mapped m (p + 1) n := by
  constructor
  · intro h
    refine ⟨add_ofNat_zero p ▸ h 0 (by omega), fun k hk => ?_⟩
    rw [add_one_add_ofNat]
    exact h (k + 1) (by omega)
  · rintro ⟨hp, hrest⟩ k hk
    cases k with
    | zero => rwa [add_ofNat_zero]
    | succ k =>
        rw [← add_one_add_ofNat]
        exact hrest k (by omega)

/-- A part of what answers. -/
theorem Mapped.part {m : Memory} {p q : UInt32} {n l : Nat} (h : Mapped m p n)
    (hge : p.toNat ≤ q.toNat) (hle : q.toNat + l ≤ p.toNat + n) : Mapped m q l := by
  intro k hk
  have hq : q = p + UInt32.ofNat (q.toNat - p.toNat) := by
    have hlt := q.toNat_lt
    rw [← UInt32.toNat_inj, toNat_add_ofNat (by omega)]
    omega
  have hk' := h (q.toNat - p.toNat + k) (by omega)
  rwa [UInt32.ofNat_add, ← UInt32.add_assoc, ← hq] at hk'

/-- Writing a byte where one is leaves the same addresses mapped. -/
theorem isSome_update {m : Memory} {x : UInt32} (hx : (m x).isSome = true) (b : UInt8)
    (y : UInt32) : (Function.update m x (some b) y).isSome = (m y).isSome := by
  by_cases hy : y = x
  · rw [hy, Function.update_self, hx]
    rfl
  · rw [Function.update_of_ne hy]

/-- Which addresses answer is all that counts. -/
theorem mapped_congr {m m' : Memory} (h : ∀ x, (m' x).isSome = (m x).isSome) (p : UInt32)
    (n : Nat) : Mapped m' p n ↔ Mapped m p n := by
  simp only [Mapped, h]

/-! ## The copy -/

section copy

variable {m m' : Memory} {des src : UInt32} {n : Nat}

/-- One byte. -/
theorem mymemcpy_succ (h : mymemcpy des src (n + 1) m = some m') :
    ∃ b, m src = some b ∧ (m des).isSome = true ∧
      mymemcpy (des + 1) (src + 1) n (Function.update m des (some b)) = some m' := by
  rw [mymemcpy] at h
  split at h
  · next b _ hsrc hdes => exact ⟨b, hsrc, by rw [hdes]; rfl, h⟩
  · cases h

/-- **Where the copy comes back**: it has read `n` bytes from the source on, whatever the
length of the block there. -/
theorem mymemcpy_returns_iff (hdes : Mapped m des n) :
    (∃ m', mymemcpy des src n m = some m') ↔ Mapped m src n := by
  induction n generalizing m des src with
  | zero => exact iff_of_true ⟨m, rfl⟩ fun k hk => absurd hk (Nat.not_lt_zero k)
  | succ n ih =>
      obtain ⟨hhead, hrest⟩ := mapped_succ.mp hdes
      rw [mapped_succ]
      constructor
      · rintro ⟨m', hcopy⟩
        obtain ⟨b, hsrc, -, hcopy⟩ := mymemcpy_succ hcopy
        have hsame := isSome_update hhead b
        have hmap := (ih ((mapped_congr hsame _ _).mpr hrest)).mp ⟨m', hcopy⟩
        exact ⟨by rw [hsrc]; rfl, (mapped_congr hsame _ _).mp hmap⟩
      · rintro ⟨hsrc, hbehind⟩
        obtain ⟨b, hb⟩ := Option.isSome_iff_exists.mp hsrc
        obtain ⟨c, hc⟩ := Option.isSome_iff_exists.mp hhead
        have hsame := isSome_update hhead b
        rw [mymemcpy, hb, hc]
        exact (ih ((mapped_congr hsame _ _).mpr hrest)).mpr ((mapped_congr hsame _ _).mpr hbehind)

/-- It maps no address and unmaps none. -/
theorem isSome_mymemcpy (h : mymemcpy des src n m = some m') (x : UInt32) :
    (m' x).isSome = (m x).isSome := by
  induction n generalizing m des src with
  | zero => rw [← Option.some.inj h]
  | succ n ih =>
      obtain ⟨b, -, hdes, hcopy⟩ := mymemcpy_succ h
      rw [ih hcopy, isSome_update hdes]

/-- Nothing outside the destination changes. -/
theorem mymemcpy_outside (h : mymemcpy des src n m = some m')
    (hdes : des.toNat + n ≤ 4294967296) {x : UInt32}
    (hx : x.toNat < des.toNat ∨ des.toNat + n ≤ x.toNat) : m' x = m x := by
  induction n generalizing m des src with
  | zero => rw [← Option.some.inj h]
  | succ n ih =>
      obtain ⟨b, -, -, hcopy⟩ := mymemcpy_succ h
      have hne : x ≠ des := by
        rintro rfl
        omega
      by_cases hn : n = 0
      · subst hn
        rw [← Option.some.inj hcopy, Function.update_of_ne hne]
      · have hone := toNat_add_one (p := des) (by omega)
        rw [ih hcopy (by omega) (by omega), Function.update_of_ne hne]

/-- **A forward copy** brings over the bytes of a source that the destination does not meet,
also where it goes on reading behind them. -/
theorem mymemcpy_copies (h : mymemcpy des src n m = some m') {l : Nat}
    (hdes : des.toNat + n ≤ 4294967296) (hsrc : src.toNat + l ≤ 4294967296)
    (hapart : src.toNat + l ≤ des.toNat ∨ des.toNat + n ≤ src.toNat) {k : Nat} (hk : k < l)
    (hn : k < n) : m' (des + UInt32.ofNat k) = m (src + UInt32.ofNat k) := by
  induction k generalizing m des src n l with
  | zero =>
      obtain ⟨n, rfl⟩ := Nat.exists_eq_add_of_lt hn
      rw [Nat.zero_add] at h
      obtain ⟨b, hb, -, hcopy⟩ := mymemcpy_succ h
      rw [add_ofNat_zero, add_ofNat_zero, hb]
      by_cases hn0 : n = 0
      · subst hn0
        rw [← Option.some.inj hcopy, Function.update_self]
      · have hone := toNat_add_one (p := des) (by omega)
        rw [mymemcpy_outside hcopy (by omega) (by omega), Function.update_self]
  | succ k ih =>
      obtain ⟨n, rfl⟩ : ∃ n', n = n' + 1 := ⟨n - 1, by omega⟩
      obtain ⟨b, hb, -, hcopy⟩ := mymemcpy_succ h
      have hone := toNat_add_one (p := des) (by omega)
      have hone' := toNat_add_one (p := src) (by omega)
      have hne : src + UInt32.ofNat (k + 1) ≠ des := by
        intro heq
        have hnat := toNat_add_ofNat (p := src) (k := k + 1) (by omega)
        rw [heq] at hnat
        omega
      rw [← add_one_add_ofNat des,
        ih hcopy (l := l - 1) (by omega) (by omega) (by omega) (by omega) (by omega),
        add_one_add_ofNat src, Function.update_of_ne hne]

end copy

/-! ## The allocator at work -/

/-- The pools with their live blocks, and RAM. -/
structure Arena where
  heap : Heap
  ram : Memory

/-- A call of the allocator, or the program assigns a byte. -/
inductive ArenaEvent where
  | my_mem_init (memx : Memx)
  | call (c : MemCall)
  | myrealloc (memx : Memx) (ptr : UInt32) (size : UInt32)
  | assign (addr : UInt32) (b : UInt8)

/-- One event.  Only pointers that are live are freed or reallocated, and a pool is initialised
only while nothing in it is live; a bus fault is the end of the run. -/
def Arena.step (h : Arena) : ArenaEvent → Option Arena
  | .my_mem_init memx =>
    if h.heap.live memx = [] then
      some { h with heap := { h.heap with dev := NetCamera.my_mem_init memx h.heap.dev } }
    else none
  | .call c => (h.heap.step c).map fun heap => { h with heap }
  | .myrealloc memx ptr size =>
    if ∃ a ∈ h.heap.live memx, a.ptr = ptr then
      (NetCamera.myrealloc memx ptr size h.heap.dev h.ram).map fun r =>
        ⟨⟨r.2.1, if r.1 = 0 then h.heap.live
          else Function.update h.heap.live memx
            (⟨r.1, size⟩ :: (h.heap.live memx).eraseP (·.ptr = ptr))⟩, r.2.2⟩
    else none
  | .assign addr b =>
    if (h.ram addr).isSome then some { h with ram := Function.update h.ram addr (some b) }
    else none

/-- The reset leaves no pool ready and nothing live; the maps may hold anything. -/
def Arena.reset (d : MallcoDev) (m : Memory) : Arena :=
  ⟨⟨{ d with memrdy := fun _ => 0 }, fun _ => []⟩, m⟩

/-- The linker gives each pool a place of its own. -/
def MallcoDev.PoolsApart (d : MallcoDev) : Prop :=
  ∀ k l, k ≠ l → (d.membase k).toNat + (memsize k).toNat ≤ (d.membase l).toNat ∨
    (d.membase l).toNat + (memsize l).toNat ≤ (d.membase k).toNat

/-- The arrays are memory. -/
def MallcoDev.PoolsMapped (d : MallcoDev) (m : Memory) : Prop :=
  ∀ k, Mapped m (d.membase k) (memsize k).toNat

/-- A pool is not ready yet and nothing in it is live, or it is in order. -/
def PoolKept (memx : Memx) (d : MallcoDev) (live : List Alloc) : Prop :=
  (d.memrdy memx = 0 ∧ live = []) ∨ PoolInv memx d live

section pools

variable {d d' : MallcoDev} {memx k : Memx} {live : List Alloc}

theorem PoolKept.inv (h : PoolKept memx d live) {a : Alloc} (ha : a ∈ live) :
    PoolInv memx d live := by
  refine h.resolve_left ?_
  rintro ⟨-, rfl⟩
  cases ha

theorem PoolKept.same (h : PoolKept memx d live) (hs : SamePool memx d d') :
    PoolKept memx d' live := by
  cases h with
  | inl hreset => exact Or.inl ⟨hs.memrdy.trans hreset.1, hreset.2⟩
  | inr hinv => exact Or.inr (hinv.same hs)

theorem PoolKept.mymalloc (h : PoolKept memx d live) (size : UInt32) :
    PoolInv memx (NetCamera.mymalloc memx size d).2
      (if (NetCamera.mymalloc memx size d).1 = 0 then live
        else ⟨(NetCamera.mymalloc memx size d).1, size⟩ :: live) := by
  cases h with
  | inl hreset =>
      obtain ⟨hrdy, rfl⟩ := hreset
      rw [mymalloc_of_not_ready hrdy]
      exact (PoolInv.init memx d).mymalloc size
  | inr hinv => exact hinv.mymalloc size

/-- One call keeps every pool. -/
theorem PoolKept.call {h h' : Heap} {c : MemCall} (hkept : PoolKept memx h.dev (h.live memx))
    (hstep : h.step c = some h') : PoolKept memx h'.dev (h'.live memx) := by
  cases hkept with
  | inr hinv => exact Or.inr (hinv.step hstep)
  | inl hreset =>
      cases c with
      | mymalloc k size =>
          cases hstep
          by_cases hk : memx = k
          · subst hk
            have hinv := PoolKept.mymalloc (Or.inl hreset) size
            refine Or.inr ?_
            convert hinv using 1
            split <;> simp
          · refine PoolKept.same ?_ (samePool_mymalloc hk size h.dev)
            split <;> exact Or.inl (by simpa [hk] using hreset)
      | myfree k ptr =>
          simp only [Heap.step] at hstep
          split at hstep
          · next hlive =>
            cases hstep
            by_cases hk : memx = k
            · subst hk
              obtain ⟨a, ha, -⟩ := hlive
              rw [hreset.2] at ha
              cases ha
            · exact PoolKept.same (Or.inl (by simpa [hk] using hreset))
                (samePool_myfree hk ptr h.dev)
          · cases hstep

/-- `myrealloc` is `mymalloc`, the copy and `myfree`. -/
theorem myrealloc_eq (hrdy : d.memrdy memx ≠ 0) (ptr size : UInt32) (m : Memory) :
    myrealloc memx ptr size d m =
      if (mymalloc memx size d).1 = 0 then some (0, (mymalloc memx size d).2, m)
      else (mymemcpy (mymalloc memx size d).1 ptr size.toNat m).map fun m =>
        ((mymalloc memx size d).1, myfree memx ptr (mymalloc memx size d).2, m) := by
  rw [myrealloc, mymalloc_eq]
  obtain ⟨-, heq⟩ | ⟨-, i, -, hi, heq⟩ := my_mem_malloc_cases hrdy size
  · simp only [heq, if_true]
  · have hptr : d.membase memx + UInt32.ofNat i * memblksize memx ≠ 0 := ptrAt_ne_zero d hi
    simp only [heq, if_neg (offset_ne hi), MallcoDev.membase_mark, if_neg hptr]

end pools

/-! ## The base of the pools -/

theorem exists_other (memx : Memx) : ∃ k, k ≠ memx := by
  cases memx with
  | SRAMIN => exact ⟨.SRAMEX, by decide⟩
  | SRAMEX => exact ⟨.SRAMIN, by decide⟩
  | SRAMCCM => exact ⟨.SRAMIN, by decide⟩

theorem membase_mymalloc (memx : Memx) (size : UInt32) (d : MallcoDev) :
    (mymalloc memx size d).2.membase = d.membase :=
  have ⟨_, hk⟩ := exists_other memx
  (samePool_mymalloc hk size d).membase

theorem membase_myfree (memx : Memx) (ptr : UInt32) (d : MallcoDev) :
    (myfree memx ptr d).membase = d.membase :=
  have ⟨_, hk⟩ := exists_other memx
  (samePool_myfree hk ptr d).membase

theorem membase_call {h h' : Heap} {c : MemCall} (hstep : h.step c = some h') :
    h'.dev.membase = h.dev.membase := by
  cases c with
  | mymalloc memx size =>
      cases hstep
      exact membase_mymalloc memx size h.dev
  | myfree memx ptr =>
      simp only [Heap.step] at hstep
      split at hstep
      · cases hstep
        exact membase_myfree memx ptr h.dev
      · cases hstep

/-! ## A call of `myrealloc` -/

/-- The bytes of a block. -/
def Alloc.bytes (a : Alloc) : Nat := 64 * units a.size

theorem size_le_bytes (a : Alloc) : a.size.toNat ≤ a.bytes := by
  unfold Alloc.bytes units
  omega

/-- The block of a live pointer lies in its pool. -/
theorem PoolOk.range {memx : Memx} {d : MallcoDev} {live : List Alloc} (h : PoolOk memx d live)
    {a : Alloc} (ha : a ∈ live) : (d.membase memx).toNat ≤ a.ptr.toNat ∧
      a.ptr.toNat + a.bytes ≤ (d.membase memx).toNat + (memsize memx).toNat := by
  have hstart := h.start a ha
  have hin := h.inside a ha
  rw [toNat_memblksize] at hstart hin
  exact ⟨by omega, hin⟩

/-- Every pool is in order or not ready, and they are apart and in memory. -/
structure ArenaInv (h : Arena) : Prop where
  pools : ∀ k, PoolKept k h.heap.dev (h.heap.live k)
  apart : h.heap.dev.PoolsApart
  mapped : h.heap.dev.PoolsMapped h.ram

/-- What is asked of a call that returns `ptr` for the live block `a`: it changes nothing, or the
bytes of the old block that fit are in the new one, the old block is free, the bytes of all
other live blocks are as they were, and the map still represents the live blocks.  The first of
these is what happens exactly where the pool has no room. -/
structure ReallocOk (h h' : Arena) (memx : Memx) (a : Alloc) (size ptr : UInt32) : Prop where
  null : ptr = 0 ↔ ¬ HasRoom h.heap.dev memx size
  failed : ptr = 0 → h' = h
  copied : ptr ≠ 0 → ∀ k < min a.bytes size.toNat,
    h'.ram (ptr + UInt32.ofNat k) = h.ram (a.ptr + UInt32.ofNat k)
  freed : ptr ≠ 0 → ∀ i, (a.block memx h.heap.dev).Has i → h'.heap.dev.memmap memx i = 0
  live : ptr ≠ 0 → ∀ b, b ∈ h'.heap.live memx ↔ b = ⟨ptr, size⟩ ∨ b ∈ h.heap.live memx ∧ b ≠ a
  others : ptr ≠ 0 → ∀ k, ∀ b ∈ h.heap.live k, (k = memx → b ≠ a) → ∀ j < b.bytes,
    h'.ram (b.ptr + UInt32.ofNat j) = h.ram (b.ptr + UInt32.ofNat j)
  pools : ∀ k, h'.heap.live k ≠ [] → PoolOk k h'.heap.dev (h'.heap.live k)

section realloc

variable {h : Arena} {memx : Memx} {a : Alloc} {size : UInt32}

/-- The new block is apart from every live one. -/
theorem new_apart (hinv : ArenaInv h) (hmem : h.heap.live memx ≠ [])
    (hne : (mymalloc memx size h.heap.dev).1 ≠ 0) {k : Memx} {b : Alloc}
    (hb : b ∈ h.heap.live k) :
    (mymalloc memx size h.heap.dev).1.toNat + size.toNat ≤ b.ptr.toNat ∨
      b.ptr.toNat + b.bytes ≤ (mymalloc memx size h.heap.dev).1.toNat := by
  obtain ⟨a, ha⟩ := List.exists_mem_of_ne_nil _ hmem
  have hnew := ((hinv.pools memx).inv ha).mymalloc size
  rw [if_neg hne] at hnew
  have hsize := size_le_bytes ⟨(mymalloc memx size h.heap.dev).1, size⟩
  have hbase := membase_mymalloc memx size h.heap.dev
  by_cases hk : k = memx
  · subst hk
    have hdisj := (List.pairwise_cons.mp hnew.ok.disjoint).1 b hb
    rw [toNat_memblksize] at hdisj
    have hbytes : b.bytes = 64 * (b.block k (mymalloc k size h.heap.dev).2).len := rfl
    have hbytes' : (⟨(mymalloc k size h.heap.dev).1, size⟩ : Alloc).bytes =
      64 * ((⟨(mymalloc k size h.heap.dev).1, size⟩ : Alloc).block k
        (mymalloc k size h.heap.dev).2).len := rfl
    simp only at hsize hdisj
    omega
  · have hrange := ((hinv.pools k).inv hb).ok.range hb
    have hrange' := hnew.ok.range List.mem_cons_self
    rw [hbase] at hrange'
    have hapart := hinv.apart k memx hk
    simp only at hsize hrange'
    omega

/-- No two live blocks are equal. -/
theorem PoolInv.nodup {d : MallcoDev} {live : List Alloc} (hinv : PoolInv memx d live) :
    live.Nodup := by
  refine hinv.ok.disjoint.imp_of_mem fun {a b} ha _ hdisj heq => ?_
  have hpos := hinv.blocks.pos _ (List.mem_map_of_mem (f := fun a => a.block memx d) ha)
  rw [toNat_memblksize, ← heq] at hdisj
  omega

/-- No two live blocks have one pointer. -/
theorem PoolInv.ptr_inj {d : MallcoDev} {live : List Alloc} (hinv : PoolInv memx d live)
    {a b : Alloc} (ha : a ∈ live) (hb : b ∈ live) (hptr : a.ptr = b.ptr) : a = b := by
  by_contra hne
  have hpos := hinv.blocks.pos _ (List.mem_map_of_mem (f := fun a => a.block memx d) ha)
  have hpos' := hinv.blocks.pos _ (List.mem_map_of_mem (f := fun a => a.block memx d) hb)
  have hdisj := hinv.ok.disjoint
  rw [toNat_memblksize] at hdisj
  have hsymm : Std.Symm fun b c : Alloc =>
      b.ptr.toNat + 64 * (b.block memx d).len ≤ c.ptr.toNat ∨
        c.ptr.toNat + 64 * (c.block memx d).len ≤ b.ptr.toNat := ⟨fun _ _ h => Or.symm h⟩
  have hab := hdisj.forall ha hb hne
  rw [hptr] at hab
  omega

/-- What is live without `a`. -/
theorem PoolInv.mem_eraseP {d : MallcoDev} {live : List Alloc} (hinv : PoolInv memx d live)
    (ha : a ∈ live) (b : Alloc) : b ∈ live.eraseP (·.ptr = a.ptr) ↔ b ∈ live ∧ b ≠ a := by
  obtain ⟨a', l₁, l₂, -, hptr, hlive, herase⟩ :=
    List.exists_of_eraseP ha (p := fun b => decide (b.ptr = a.ptr)) (by simp)
  have ha' : a' ∈ live := hlive ▸ List.mem_append_right l₁ List.mem_cons_self
  have heq : a' = a := hinv.ptr_inj ha' ha (of_decide_eq_true hptr)
  subst heq
  have hnodup := hinv.nodup
  rw [hlive, List.nodup_middle, List.nodup_cons] at hnodup
  rw [herase, hlive]
  have hnot := hnodup.1
  grind

/-- The pools behind a call that found a new block. -/
theorem PoolInv.realloc {d : MallcoDev} {live : List Alloc} (hinv : PoolInv memx d live)
    (ha : a ∈ live) (hne : (NetCamera.mymalloc memx size d).1 ≠ 0) :
    PoolInv memx (NetCamera.myfree memx a.ptr (NetCamera.mymalloc memx size d).2)
      (⟨(NetCamera.mymalloc memx size d).1, size⟩ :: live.eraseP (·.ptr = a.ptr)) := by
  have hnew := hinv.mymalloc size
  rw [if_neg hne] at hnew
  have hptr : (NetCamera.mymalloc memx size d).1 ≠ a.ptr := by
    intro hptr
    have heq := hnew.ptr_inj List.mem_cons_self (List.mem_cons_of_mem _ ha) hptr
    have hnodup := hnew.nodup
    rw [heq, List.nodup_cons] at hnodup
    exact hnodup.1 ha
  have hfree := hnew.myfree ⟨a, List.mem_cons_of_mem _ ha, rfl⟩
  rwa [List.eraseP_cons_of_neg (by simpa using hptr)] at hfree

/-- The addresses of a block do not wrap. -/
theorem PoolInv.fits {d : MallcoDev} {live : List Alloc} (hinv : PoolInv memx d live)
    (ha : a ∈ live) : a.ptr.toNat + a.bytes ≤ 4294967296 := by
  have hrange := (hinv.ok.range ha).2
  have hfits := (membase_fits d memx).2
  omega

theorem toNat_byte {d : MallcoDev} {live : List Alloc} (hinv : PoolInv memx d live)
    (ha : a ∈ live) {j : Nat} (hj : j < a.bytes) :
    (a.ptr + UInt32.ofNat j).toNat = a.ptr.toNat + j := by
  have hfits := hinv.fits ha
  exact toNat_add_ofNat (by omega)

/-- The new block is memory. -/
theorem new_mapped (hinv : ArenaInv h) (ha : a ∈ h.heap.live memx)
    (hne : (mymalloc memx size h.heap.dev).1 ≠ 0) :
    Mapped h.ram (mymalloc memx size h.heap.dev).1 size.toNat := by
  have hnew := ((hinv.pools memx).inv ha).mymalloc size
  rw [if_neg hne] at hnew
  have hrange := hnew.ok.range List.mem_cons_self
  rw [membase_mymalloc] at hrange
  have hsize := size_le_bytes ⟨(mymalloc memx size h.heap.dev).1, size⟩
  simp only at hrange hsize
  exact (hinv.mapped memx).part (by omega) (by omega)

/-- The copy brings over the old block. -/
theorem realloc_copied (hinv : ArenaInv h) (ha : a ∈ h.heap.live memx)
    (hne : (mymalloc memx size h.heap.dev).1 ≠ 0) {m : Memory}
    (hcopy : mymemcpy (mymalloc memx size h.heap.dev).1 a.ptr size.toNat h.ram = some m)
    {k : Nat} (hk : k < min a.bytes size.toNat) :
    m ((mymalloc memx size h.heap.dev).1 + UInt32.ofNat k) = h.ram (a.ptr + UInt32.ofNat k) := by
  have hpool := (hinv.pools memx).inv ha
  have hnew := hpool.mymalloc size
  rw [if_neg hne] at hnew
  have hfits := hnew.fits List.mem_cons_self
  have hsize := size_le_bytes ⟨(mymalloc memx size h.heap.dev).1, size⟩
  have hapart := new_apart hinv (List.ne_nil_of_mem ha) hne ha
  simp only at hfits hsize
  exact mymemcpy_copies hcopy (by omega) (hpool.fits ha) hapart.symm (by omega) (by omega)

/-- And leaves the bytes of every live block as they were. -/
theorem realloc_others (hinv : ArenaInv h) (ha : a ∈ h.heap.live memx)
    (hne : (mymalloc memx size h.heap.dev).1 ≠ 0) {m : Memory}
    (hcopy : mymemcpy (mymalloc memx size h.heap.dev).1 a.ptr size.toNat h.ram = some m)
    {k : Memx} {b : Alloc} (hb : b ∈ h.heap.live k) {j : Nat} (hj : j < b.bytes) :
    m (b.ptr + UInt32.ofNat j) = h.ram (b.ptr + UInt32.ofNat j) := by
  have hnew := ((hinv.pools memx).inv ha).mymalloc size
  rw [if_neg hne] at hnew
  have hfits := hnew.fits List.mem_cons_self
  have hsize := size_le_bytes ⟨(mymalloc memx size h.heap.dev).1, size⟩
  have hapart := new_apart hinv (List.ne_nil_of_mem ha) hne hb
  have hbyte := toNat_byte ((hinv.pools k).inv hb) hb hj
  simp only at hfits hsize
  exact mymemcpy_outside hcopy (by omega) (by omega)

/-- The entries of the old block are free. -/
theorem realloc_freed (hinv : ArenaInv h) (ha : a ∈ h.heap.live memx)
    (hne : (mymalloc memx size h.heap.dev).1 ≠ 0) {i : Nat}
    (hi : (a.block memx h.heap.dev).Has i) :
    (myfree memx a.ptr (mymalloc memx size h.heap.dev).2).memmap memx i = 0 := by
  have hnew := ((hinv.pools memx).inv ha).mymalloc size
  rw [if_neg hne] at hnew
  have hblock := congrFun (Alloc.block_of_membase (membase_mymalloc memx size h.heap.dev) memx) a
  rw [hnew.myfree_eq (List.mem_cons_of_mem _ ha), MallcoDev.memmap_setMap_self, hblock]
  exact fill_of_has _ _ hi

/-- The pools behind a call that moved the block, which keep the whole arena. -/
theorem ArenaInv.moved (hinv : ArenaInv h) (ha : a ∈ h.heap.live memx)
    (hne : (mymalloc memx size h.heap.dev).1 ≠ 0) {m : Memory}
    (hcopy : mymemcpy (mymalloc memx size h.heap.dev).1 a.ptr size.toNat h.ram = some m) :
    ArenaInv ⟨⟨myfree memx a.ptr (mymalloc memx size h.heap.dev).2,
      Function.update h.heap.live memx (⟨(mymalloc memx size h.heap.dev).1, size⟩ ::
        (h.heap.live memx).eraseP (·.ptr = a.ptr))⟩, m⟩ := by
  have hbase : (myfree memx a.ptr (mymalloc memx size h.heap.dev).2).membase =
      h.heap.dev.membase := (membase_myfree _ _ _).trans (membase_mymalloc _ _ _)
  constructor
  · intro k
    by_cases hk : k = memx
    · subst hk
      simp only [Function.update_self]
      exact Or.inr (((hinv.pools k).inv ha).realloc ha hne)
    · simp only [Function.update_of_ne hk]
      exact ((hinv.pools k).same (samePool_mymalloc hk size _)).same (samePool_myfree hk _ _)
  · simpa only [MallcoDev.PoolsApart, hbase] using hinv.apart
  · intro k
    simp only [hbase]
    exact (mapped_congr (isSome_mymemcpy hcopy) _ _).mpr (hinv.mapped k)

/-- No room: nothing changes. -/
theorem realloc_refused (hinv : ArenaInv h) (ha : a ∈ h.heap.live memx)
    (hroom : ¬ HasRoom h.heap.dev memx size) :
    myrealloc memx a.ptr size h.heap.dev h.ram = some (0, h.heap.dev, h.ram) ∧
      h.step (.myrealloc memx a.ptr size) = some h ∧ ReallocOk h h memx a size 0 := by
  have hnull : mymalloc memx size h.heap.dev = (0, h.heap.dev) := by
    obtain ⟨-, heq⟩ | ⟨hhas, -⟩ := mymalloc_cases ((hinv.pools memx).inv ha).ready size
    · exact heq
    · exact absurd hhas hroom
  have heq : myrealloc memx a.ptr size h.heap.dev h.ram = some (0, h.heap.dev, h.ram) := by
    rw [myrealloc_eq ((hinv.pools memx).inv ha).ready, hnull]
    rfl
  refine ⟨heq, ?_, ?_⟩
  · rw [Arena.step, if_pos ⟨a, ha, rfl⟩, heq]
    rfl
  · refine ⟨iff_of_true rfl hroom, fun _ => rfl, fun h => absurd rfl h, fun h => absurd rfl h,
      fun h => absurd rfl h, fun h => absurd rfl h, fun k hk => ?_⟩
    obtain ⟨b, hb⟩ := List.exists_mem_of_ne_nil _ hk
    exact ((hinv.pools k).inv hb).ok

/-- With room the pointer is not the null pointer, and it is the copy that decides. -/
theorem realloc_room (hinv : ArenaInv h) (ha : a ∈ h.heap.live memx)
    (hroom : HasRoom h.heap.dev memx size) :
    (mymalloc memx size h.heap.dev).1 ≠ 0 ∧
      myrealloc memx a.ptr size h.heap.dev h.ram =
        (mymemcpy (mymalloc memx size h.heap.dev).1 a.ptr size.toNat h.ram).map fun m =>
          ((mymalloc memx size h.heap.dev).1,
            myfree memx a.ptr (mymalloc memx size h.heap.dev).2, m) := by
  have hready := ((hinv.pools memx).inv ha).ready
  have hne := fun h0 => (mymalloc_eq_zero_iff hready size).mp h0 hroom
  exact ⟨hne, by rw [myrealloc_eq hready, if_neg hne]⟩

/-- A copy that comes back. -/
theorem realloc_moved (hinv : ArenaInv h) (ha : a ∈ h.heap.live memx)
    (hroom : HasRoom h.heap.dev memx size) (hmap : Mapped h.ram a.ptr size.toNat) :
    ∃ ptr h', myrealloc memx a.ptr size h.heap.dev h.ram = some (ptr, h'.heap.dev, h'.ram) ∧
      h.step (.myrealloc memx a.ptr size) = some h' ∧ ArenaInv h' ∧
      ReallocOk h h' memx a size ptr := by
  obtain ⟨hne, heq⟩ := realloc_room hinv ha hroom
  obtain ⟨m, hcopy⟩ := (mymemcpy_returns_iff (new_mapped hinv ha hne)).mpr hmap
  have hpool := (hinv.pools memx).inv ha
  have hinv' := hinv.moved ha hne hcopy
  rw [hcopy, Option.map_some] at heq
  refine ⟨_, _, heq, ?_, hinv', ?_⟩
  · rw [Arena.step, if_pos ⟨a, ha, rfl⟩, heq]
    simp only [Option.map_some, if_neg hne]
  · constructor
    · exact iff_of_false hne (not_not_intro hroom)
    · exact fun h0 => absurd h0 hne
    · exact fun _ k hk => realloc_copied hinv ha hne hcopy hk
    · exact fun _ i hi => realloc_freed hinv ha hne hi
    · intro _ b
      simp only [Function.update_self]
      rw [List.mem_cons, hpool.mem_eraseP ha]
    · exact fun _ k b hb _ j hj => realloc_others hinv ha hne hcopy hb hj
    · intro k hk
      obtain ⟨b, hb⟩ := List.exists_mem_of_ne_nil _ hk
      exact ((hinv'.pools k).inv hb).ok

/-- And one that does not. -/
theorem realloc_fault (hinv : ArenaInv h) (ha : a ∈ h.heap.live memx)
    (hroom : HasRoom h.heap.dev memx size) (hmap : ¬ Mapped h.ram a.ptr size.toNat) :
    myrealloc memx a.ptr size h.heap.dev h.ram = none := by
  obtain ⟨hne, heq⟩ := realloc_room hinv ha hroom
  rw [heq, Option.map_eq_none_iff, Option.eq_none_iff_forall_ne_some]
  exact fun m hcopy => hmap ((mymemcpy_returns_iff (new_mapped hinv ha hne)).mp ⟨m, hcopy⟩)

/-- **One call of `myrealloc`** on a live block. -/
theorem realloc_cases (hinv : ArenaInv h) (ha : a ∈ h.heap.live memx) (size : UInt32) :
    ((HasRoom h.heap.dev memx size → Mapped h.ram a.ptr size.toNat) ∧
      ∃ ptr h', myrealloc memx a.ptr size h.heap.dev h.ram = some (ptr, h'.heap.dev, h'.ram) ∧
        h.step (.myrealloc memx a.ptr size) = some h' ∧ ArenaInv h' ∧
        ReallocOk h h' memx a size ptr) ∨
    (¬ (HasRoom h.heap.dev memx size → Mapped h.ram a.ptr size.toNat) ∧
      myrealloc memx a.ptr size h.heap.dev h.ram = none) := by
  by_cases hroom : HasRoom h.heap.dev memx size
  · by_cases hmap : Mapped h.ram a.ptr size.toNat
    · exact Or.inl ⟨fun _ => hmap, realloc_moved hinv ha hroom hmap⟩
    · exact Or.inr ⟨fun himp => hmap (himp hroom), realloc_fault hinv ha hroom hmap⟩
  · obtain ⟨heq, hstep, hok⟩ := realloc_refused hinv ha hroom
    exact Or.inl ⟨fun hhas => absurd hhas hroom, 0, h, heq, hstep, hinv, hok⟩

end realloc

/-! ## Runs -/

/-- Every event keeps the pools. -/
theorem ArenaInv.step {h h' : Arena} {e : ArenaEvent} (hinv : ArenaInv h)
    (hstep : h.step e = some h') : ArenaInv h' := by
  cases e with
  | my_mem_init memx =>
      simp only [Arena.step, Option.ite_none_right_eq_some, Option.some.injEq] at hstep
      obtain ⟨hlive, rfl⟩ := hstep
      have hbase : (NetCamera.my_mem_init memx h.heap.dev).membase = h.heap.dev.membase :=
        have ⟨_, hk⟩ := exists_other memx
        (SamePool.my_mem_init hk).membase
      refine ⟨fun k => ?_, by simpa only [MallcoDev.PoolsApart, hbase] using hinv.apart,
        by simpa only [MallcoDev.PoolsMapped, hbase] using hinv.mapped⟩
      by_cases hk : k = memx
      · subst hk
        exact Or.inr (hlive ▸ PoolInv.init k h.heap.dev)
      · exact (hinv.pools k).same (SamePool.my_mem_init hk)
  | call c =>
      simp only [Arena.step, Option.map_eq_some_iff] at hstep
      obtain ⟨heap, hheap, rfl⟩ := hstep
      refine ⟨fun k => (hinv.pools k).call hheap, ?_, ?_⟩
      · simpa only [MallcoDev.PoolsApart, membase_call hheap] using hinv.apart
      · simpa only [MallcoDev.PoolsMapped, membase_call hheap] using hinv.mapped
  | myrealloc memx ptr size =>
      by_cases hlive : ∃ a ∈ h.heap.live memx, a.ptr = ptr
      · obtain ⟨a, ha, rfl⟩ := hlive
        obtain ⟨-, ptr, t, -, ht, hinv', -⟩ | ⟨-, hnone⟩ := realloc_cases hinv ha size
        · rw [ht] at hstep
          cases hstep
          exact hinv'
        · rw [Arena.step, if_pos ⟨a, ha, rfl⟩, hnone] at hstep
          cases hstep
      · simp [Arena.step, hlive] at hstep
  | assign addr b =>
      simp only [Arena.step, Option.ite_none_right_eq_some, Option.some.injEq] at hstep
      obtain ⟨haddr, rfl⟩ := hstep
      exact ⟨hinv.pools, hinv.apart,
        fun k => (mapped_congr (isSome_update haddr b) _ _).mpr (hinv.mapped k)⟩

/-- So it is in every state that the allocator gets to. -/
theorem arenaInv_of_run {d : MallcoDev} (hapart : d.PoolsApart) {m : Memory}
    (hmapped : d.PoolsMapped m) {es : List ArenaEvent} {h : Arena}
    (hrun : run Arena.step (.reset d m) es = some h) : ArenaInv h :=
  run_invariant (fun _ _ _ hinv hstep => ArenaInv.step hinv hstep)
    ⟨fun _ => Or.inl ⟨rfl, rfl⟩, hapart, hmapped⟩ hrun

/-- **`myrealloc` keeps data and is atomic**, in every state that the allocator gets to, exactly
where the pool has no room for the new block or everything from the old pointer on that a block
of the new size would cover is memory. -/
theorem realloc_ok_iff {d : MallcoDev} (hapart : d.PoolsApart) {m : Memory}
    (hmapped : d.PoolsMapped m) {es : List ArenaEvent} {h : Arena}
    (hrun : run Arena.step (.reset d m) es = some h) {memx : Memx} {a : Alloc}
    (ha : a ∈ h.heap.live memx) (size : UInt32) :
    (∃ ptr h', myrealloc memx a.ptr size h.heap.dev h.ram = some (ptr, h'.heap.dev, h'.ram) ∧
      h.step (.myrealloc memx a.ptr size) = some h' ∧ ReallocOk h h' memx a size ptr) ↔
    (HasRoom h.heap.dev memx size → Mapped h.ram a.ptr size.toNat) := by
  have hinv := arenaInv_of_run hapart hmapped hrun
  obtain ⟨hcond, ptr, h', heq, hstep, -, hok⟩ | ⟨hcond, hnone⟩ := realloc_cases hinv ha size
  · exact iff_of_true ⟨ptr, h', heq, hstep, hok⟩ hcond
  · refine iff_of_false ?_ hcond
    rintro ⟨ptr, h', heq, -⟩
    rw [hnone] at heq
    cases heq

/-! ## On the board -/

/-- The memory of the board: 64 KB of CCM RAM, 192 KB of SRAM and 32 MB of SDRAM. -/
def boardRam : Memory := fun x =>
  if (0x10000000 ≤ x ∧ x < 0x10010000) ∨ (0x20000000 ≤ x ∧ x < 0x20030000) ∨
    (0xC0000000 ≤ x ∧ x < 0xC2000000) then some 0 else none

/-- Where the linker may have put `mem1base`. -/
def linkedDev : MallcoDev := ⟨⟨0x20000400, by decide, by decide⟩, fun _ _ => 7, fun _ => 0⟩

theorem linkedDev_apart : linkedDev.PoolsApart := by
  intro k l hkl
  cases k <;> cases l <;> first | exact absurd rfl hkl | decide

theorem isSome_boardRam (x : UInt32) : (boardRam x).isSome = true ↔
    (0x10000000 ≤ x.toNat ∧ x.toNat < 0x10010000) ∨ (0x20000000 ≤ x.toNat ∧ x.toNat < 0x20030000) ∨
      (0xC0000000 ≤ x.toNat ∧ x.toNat < 0xC2000000) := by
  rw [boardRam, Option.isSome_ite]
  rfl

theorem linkedDev_mapped : linkedDev.PoolsMapped boardRam := by
  intro k j hj
  have hfits := (membase_fits linkedDev k).2
  rw [isSome_boardRam, toNat_add_ofNat (by omega)]
  cases k with
  | SRAMIN =>
      have hlt : j < 100 * 1024 := hj
      have hbase : (linkedDev.membase .SRAMIN).toNat = 0x20000400 := rfl
      omega
  | SRAMEX =>
      have hlt : j < 28912 * 1024 := hj
      have hbase : (linkedDev.membase .SRAMEX).toNat = 0xC01F4000 := rfl
      omega
  | SRAMCCM =>
      have hlt : j < 60 * 1024 := hj
      have hbase : (linkedDev.membase .SRAMCCM).toNat = 0x10000000 := rfl
      omega

/-- Behind the CCM RAM nothing answers. -/
theorem mapped_ccm_iff {p : UInt32} (hge : 0x10000000 ≤ p.toNat) (hlt : p.toNat < 0x10010000)
    (n : Nat) : Mapped boardRam p n ↔ p.toNat + n ≤ 0x10010000 := by
  constructor
  · intro h
    by_contra hn
    have hend := h (0x10010000 - p.toNat) (by omega)
    rw [isSome_boardRam, toNat_add_ofNat (by omega)] at hend
    omega
  · intro hn k hk
    rw [isSome_boardRam, toNat_add_ofNat (by omega)]
    omega

/-- A call of the allocator leaves RAM as it is. -/
theorem ram_of_run_call {d : MallcoDev} {m : Memory} {c : MemCall} {h : Arena}
    (hrun : run Arena.step (.reset d m) [.call c] = some h) : h.ram = m := by
  obtain ⟨h₁, hstep, heq⟩ := Option.bind_eq_some_iff.mp hrun
  cases heq
  obtain ⟨heap, -, rfl⟩ := Option.map_eq_some_iff.mp hstep
  rfl

/-- The block at the top of the pool `SRAMCCM` grows from 64 to 5000 bytes: the copy runs from
`0x1000EFC0` into the end of the CCM RAM. -/
theorem realloc_ok_beyond :
    ∃ h : Arena,
      run Arena.step (.reset linkedDev boardRam) [.call (.mymalloc .SRAMCCM 64)] = some h ∧
      (⟨0x1000EFC0, 64⟩ : Alloc) ∈ h.heap.live .SRAMCCM ∧
      myrealloc .SRAMCCM 0x1000EFC0 5000 h.heap.dev h.ram = none := by
  obtain ⟨h, hrun, hstate⟩ := Option.map_eq_some_iff.mp (by decide +kernel :
    (run Arena.step (.reset linkedDev boardRam) [.call (.mymalloc .SRAMCCM 64)]).map
      (fun h => (h.heap.live .SRAMCCM, (mymalloc .SRAMCCM 5000 h.heap.dev).1)) =
        some ([⟨0x1000EFC0, 64⟩], 0x1000DC00))
  obtain ⟨hlive, hptr⟩ := Prod.mk.inj hstate
  have ha : (⟨0x1000EFC0, 64⟩ : Alloc) ∈ h.heap.live .SRAMCCM := hlive ▸ List.mem_cons_self
  have hinv := arenaInv_of_run linkedDev_apart linkedDev_mapped hrun
  have hroom : HasRoom h.heap.dev .SRAMCCM 5000 :=
    hasRoom_of_ne_zero ((hinv.pools .SRAMCCM).inv ha).ready (by rw [hptr]; decide)
  refine ⟨h, hrun, ha, realloc_fault hinv ha hroom ?_⟩
  rw [ram_of_run_call hrun, mapped_ccm_iff (by decide) (by decide)]
  decide

/-- A block of the pool `SRAMCCM` grows from 100 to 1000 bytes, and gets a new pointer. -/
theorem realloc_ok_grow :
    ∃ h h' : Arena, ∃ ptr : UInt32,
      run Arena.step (.reset linkedDev boardRam) [.call (.mymalloc .SRAMCCM 100)] = some h ∧
      myrealloc .SRAMCCM 0x1000EF80 1000 h.heap.dev h.ram = some (ptr, h'.heap.dev, h'.ram) ∧
      ptr ≠ 0 ∧ h.step (.myrealloc .SRAMCCM 0x1000EF80 1000) = some h' ∧
      ReallocOk h h' .SRAMCCM ⟨0x1000EF80, 100⟩ 1000 ptr := by
  obtain ⟨h, hrun, hstate⟩ := Option.map_eq_some_iff.mp (by decide +kernel :
    (run Arena.step (.reset linkedDev boardRam) [.call (.mymalloc .SRAMCCM 100)]).map
      (fun h => (h.heap.live .SRAMCCM, (mymalloc .SRAMCCM 1000 h.heap.dev).1)) =
        some ([⟨0x1000EF80, 100⟩], 0x1000EB80))
  obtain ⟨hlive, hptr⟩ := Prod.mk.inj hstate
  have ha : (⟨0x1000EF80, 100⟩ : Alloc) ∈ h.heap.live .SRAMCCM := hlive ▸ List.mem_cons_self
  have hinv := arenaInv_of_run linkedDev_apart linkedDev_mapped hrun
  have hmap : Mapped h.ram 0x1000EF80 (1000 : UInt32).toNat := by
    rw [ram_of_run_call hrun, mapped_ccm_iff (by decide) (by decide)]
    decide
  obtain ⟨ptr, h', heq, hstep, hok⟩ :=
    (realloc_ok_iff linkedDev_apart linkedDev_mapped hrun ha 1000).mpr fun _ => hmap
  have hroom : HasRoom h.heap.dev .SRAMCCM 1000 :=
    hasRoom_of_ne_zero ((hinv.pools .SRAMCCM).inv ha).ready (by rw [hptr]; decide)
  exact ⟨h, h', ptr, hrun, heq, fun h0 => hok.null.mp h0 hroom, hstep, hok⟩

end NetCamera
