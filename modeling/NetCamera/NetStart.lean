import Mathlib.Data.Finset.Card
import Mathlib.Data.Finset.Range
import NetCamera.Malloc

/-!
# NetCamera.NetStart

The start of the network: `lwip_comm_init` takes eight blocks of the pool `SRAMIN`
and one for the mailbox of the TCP/IP thread, and may fail behind any of them.
`main` calls it until it returns 0.

The four blocks of lwIP are given back where one of them is missing
(`lwip_comm_mem_malloc_cases`), those of the Ethernet driver never are, as its test
is about the addresses of the four variables.  `start_failed_iff` concludes that a
failed start leaves the map as it was only where the driver gets nothing.
-/

namespace NetCamera

open BlockMap Run

/-! ## Functions -/

/-- The address of a variable. -/
structure VarAddr where
  addr : UInt32
  ne_zero : addr ≠ 0

/-- What a call of `lwip_comm_init` meets: the addresses of the driver's pointers, the size
lwIP computes for its pools, the outcomes of `LAN8720_Init` (call by call), of `OSQCreate` and
of `netif_add` (`true` is not `NULL`). -/
structure NetEnv where
  DMARxDscrTab : VarAddr
  DMATxDscrTab : VarAddr
  Rx_Buff : VarAddr
  Tx_Buff : VarAddr
  memp_get_memorysize : UInt32
  LAN8720_Init : Nat → UInt8
  OSQCreate : Bool
  netif_add : Bool

/-- The pools and the pointers to the blocks of the network. -/
structure NetMem where
  dev : MallcoDev
  DMARxDscrTab : UInt32
  DMATxDscrTab : UInt32
  Rx_Buff : UInt32
  Tx_Buff : UInt32
  memp_memory : UInt32
  ram_heap : UInt32
  TCPIP_THREAD_TASK_STK : UInt32
  LWIP_DHCP_TASK_STK : UInt32
  mbox : UInt32

/-- `ETH_Mem_Free`. -/
def ETH_Mem_Free (s : NetMem) : NetMem :=
  let s := { s with dev := myfree .SRAMIN s.DMARxDscrTab s.dev }
  let s := { s with dev := myfree .SRAMIN s.DMATxDscrTab s.dev }
  let s := { s with dev := myfree .SRAMIN s.Rx_Buff s.dev }
  { s with dev := myfree .SRAMIN s.Tx_Buff s.dev }

/-- `ETH_Mem_Malloc`: 10 and 5 descriptors of 32 bytes, and a buffer of 1524 bytes for each. -/
def ETH_Mem_Malloc (env : NetEnv) (s : NetMem) : UInt8 × NetMem :=
  let r := mymalloc .SRAMIN (10 * 32) s.dev
  let s := { s with DMARxDscrTab := r.1, dev := r.2 }
  let r := mymalloc .SRAMIN (5 * 32) s.dev
  let s := { s with DMATxDscrTab := r.1, dev := r.2 }
  let r := mymalloc .SRAMIN (1524 * 10) s.dev
  let s := { s with Rx_Buff := r.1, dev := r.2 }
  let r := mymalloc .SRAMIN (1524 * 5) s.dev
  let s := { s with Tx_Buff := r.1, dev := r.2 }
  -- the source tests `&DMARxDscrTab` and so on, not the pointers
  if env.DMARxDscrTab.addr = 0 ∨ env.DMATxDscrTab.addr = 0 ∨ env.Rx_Buff.addr = 0 ∨
      env.Tx_Buff.addr = 0 then (1, ETH_Mem_Free s)
  else (0, s)

/-- `lwip_comm_mem_free`. -/
def lwip_comm_mem_free (s : NetMem) : NetMem :=
  let s := { s with dev := myfree .SRAMIN s.memp_memory s.dev }
  let s := { s with dev := myfree .SRAMIN s.ram_heap s.dev }
  let s := { s with dev := myfree .SRAMIN s.TCPIP_THREAD_TASK_STK s.dev }
  { s with dev := myfree .SRAMIN s.LWIP_DHCP_TASK_STK s.dev }

/-- `lwip_comm_mem_malloc`; the heap has `16000 + 2 * 12 + 4` bytes, the stacks have 1000 and 128
words. -/
def lwip_comm_mem_malloc (env : NetEnv) (s : NetMem) : UInt8 × NetMem :=
  let r := mymalloc .SRAMIN env.memp_get_memorysize s.dev
  let s := { s with memp_memory := r.1, dev := r.2 }
  let r := mymalloc .SRAMIN (16000 + 2 * 12 + 4) s.dev
  let s := { s with ram_heap := r.1, dev := r.2 }
  let r := mymalloc .SRAMIN (1000 * 4) s.dev
  let s := { s with TCPIP_THREAD_TASK_STK := r.1, dev := r.2 }
  let r := mymalloc .SRAMIN (128 * 4) s.dev
  let s := { s with LWIP_DHCP_TASK_STK := r.1, dev := r.2 }
  if s.memp_memory = 0 ∨ s.ram_heap = 0 ∨ s.TCPIP_THREAD_TASK_STK = 0 ∨
      s.LWIP_DHCP_TASK_STK = 0 then (1, lwip_comm_mem_free s)
  else (0, s)

/-- `tcpip_init`: `sys_mbox_new` takes the 84 bytes of a `TQ_DESCR`, and gives them back if there
is no queue; its result only prints a line. -/
def tcpip_init (env : NetEnv) (s : NetMem) : NetMem :=
  let r := mymalloc .SRAMIN (4 + 4 * 20) s.dev
  let s := { s with mbox := r.1, dev := r.2 }
  if s.mbox ≠ 0 ∧ env.OSQCreate = false then { s with dev := myfree .SRAMIN s.mbox s.dev } else s

/-- `while(LAN8720_Init()) { retry++; if(retry>5) return 3; }` with `left` calls to go: whether one
of them succeeds. -/
def phyReady (LAN8720_Init : Nat → UInt8) : Nat → Nat → Bool
  | 0, _ => false
  | left + 1, retry =>
    if LAN8720_Init retry = 0 then true else phyReady LAN8720_Init left (retry + 1)

/-- `lwip_comm_init`. -/
def lwip_comm_init (env : NetEnv) (s : NetMem) : UInt8 × NetMem :=
  let r := ETH_Mem_Malloc env s
  if r.1 ≠ 0 then (1, r.2)
  else
    let r := lwip_comm_mem_malloc env r.2
    if r.1 ≠ 0 then (2, r.2)
    else if phyReady env.LAN8720_Init 6 0 = false then (3, r.2)
    else
      let s := tcpip_init env r.2
      if env.netif_add = false then (4, s) else (0, s)

/-! ## What calls leave of the map -/

/-- The pool is ready, and its map differs only in entries that were free. -/
structure Grown (memx : Memx) (d d' : MallcoDev) : Prop where
  ready : d'.memrdy memx ≠ 0
  membase : d'.membase = d.membase
  memmap : ∀ i, d.memmap memx i ≠ 0 → d'.memmap memx i = d.memmap memx i

section grown

variable {d d' d'' : MallcoDev} {memx : Memx} {size : UInt32}

theorem Grown.refl (h : d.memrdy memx ≠ 0) : Grown memx d d := ⟨h, rfl, fun _ _ => rfl⟩

theorem Grown.trans (h : Grown memx d d') (h' : Grown memx d' d'') : Grown memx d d'' where
  ready := h'.ready
  membase := h'.membase.trans h.membase
  memmap i hi := by
    have hsame := h.memmap i hi
    rw [h'.memmap i (by rwa [hsame]), hsame]

/-- Room is only lost. -/
theorem HasRoom.of_grown (h : HasRoom d' memx size) (hg : Grown memx d d') :
    HasRoom d memx size := by
  obtain ⟨hne, start, hle, hfree⟩ := h
  refine ⟨hne, start, hle, fun i hge hlt => ?_⟩
  have hi := hfree i hge hlt
  rw [MallcoDev.free_iff] at hi ⊢
  by_contra hne
  exact hne (hg.memmap i hne ▸ hi)

/-- Where there is room for a block, there is room for a smaller one. -/
theorem HasRoom.mono {size' : UInt32} (h : HasRoom d memx size') (hne : size ≠ 0)
    (hle : units size ≤ units size') : HasRoom d memx size := by
  obtain ⟨-, start, hin, hfree⟩ := h
  exact ⟨hne, start, by omega, fun i hge hlt => hfree i hge (by omega)⟩

/-- The entries that a successful call takes. -/
theorem grown_mark (hrdy : d.memrdy memx ≠ 0) {i : Nat}
    (hfree : ∀ j, i ≤ j → j < i + units size → d.memmap memx j = 0) :
    Grown memx d (d.mark memx i size) where
  ready := hrdy
  membase := d.membase_mark memx i size
  memmap j hj := by
    rw [MallcoDev.memmap_mark, if_neg fun hin => hj (hfree j hin.1 hin.2)]

theorem grown_mymalloc (hrdy : d.memrdy memx ≠ 0) (size : UInt32) :
    Grown memx d (mymalloc memx size d).2 := by
  obtain ⟨-, heq⟩ | ⟨-, i, -, -, hfree, heq⟩ := mymalloc_cases hrdy size
  · rw [heq]
    exact Grown.refl hrdy
  · rw [heq]
    exact grown_mark hrdy hfree

end grown

/-! ## Several blocks -/

/-- The blocks of a function that asks for several. -/
def mallocAll (memx : Memx) : List UInt32 → MallcoDev → List UInt32 × MallcoDev
  | [], d => ([], d)
  | size :: sizes, d =>
    let r := mymalloc memx size d
    let rs := mallocAll memx sizes r.2
    (r.1 :: rs.1, rs.2)

/-- The blocks are given back one after the other. -/
def freeAll (memx : Memx) : List UInt32 → MallcoDev → MallcoDev
  | [], d => d
  | ptr :: ptrs, d => freeAll memx ptrs (myfree memx ptr d)

section several

variable {d e : MallcoDev} {memx : Memx} {sizes : List UInt32}

theorem grown_mallocAll (hrdy : d.memrdy memx ≠ 0) (sizes : List UInt32) :
    Grown memx d (mallocAll memx sizes d).2 := by
  induction sizes generalizing d with
  | nil => exact Grown.refl hrdy
  | cons size sizes ih =>
      have hg := grown_mymalloc hrdy size
      exact hg.trans (ih hg.ready)

/-- Without room for any of the blocks nothing changes. -/
theorem mallocAll_of_no_room (hrdy : d.memrdy memx ≠ 0)
    (h : ∀ size ∈ sizes, ¬ HasRoom d memx size) : (mallocAll memx sizes d).2 = d := by
  induction sizes with
  | nil => rfl
  | cons size sizes ih =>
      rw [List.forall_mem_cons] at h
      obtain ⟨-, heq⟩ | ⟨hroom, -⟩ := mymalloc_cases hrdy size
      · simpa only [mallocAll, heq] using ih h.2
      · exact absurd hroom h.1

/-- With room for one of them an entry is taken. -/
theorem mallocAll_takes (hrdy : d.memrdy memx ≠ 0)
    (h : ∃ size ∈ sizes, HasRoom d memx size) :
    ∃ i < mapLen memx, d.memmap memx i = 0 ∧ (mallocAll memx sizes d).2.memmap memx i ≠ 0 := by
  induction sizes with
  | nil => simp at h
  | cons size sizes ih =>
      obtain ⟨hroom, heq⟩ | ⟨hroom, i, hle, hi, hfree, heq⟩ := mymalloc_cases hrdy size
      · simp only [mallocAll, heq]
        exact ih (by simpa [hroom] using h)
      · have hpos := units_pos hroom.1
        have hentry := d.memmap_mark_self memx i hroom.1
        have hne : UInt32.ofNat (units size) ≠ 0 := @ofNat_ne_zero memx _ hpos (by omega)
        have hg := grown_mallocAll (d := d.mark memx i size) hrdy sizes
        refine ⟨i, hi, hfree i (Nat.le_refl _) (by omega), ?_⟩
        simp only [mallocAll, heq]
        rw [hg.memmap i (by rwa [hentry]), hentry]
        exact hne

/-- **Giving all blocks back undoes the calls**, also when other entries have changed
meanwhile: the entries that were free are free again. -/
theorem freeAll_mallocAll (hrdy : d.memrdy memx ≠ 0) (he : e.memrdy memx ≠ 0)
    (hbase : e.membase = d.membase)
    (hmap : ∀ i, d.memmap memx i = 0 →
      e.memmap memx i = (mallocAll memx sizes d).2.memmap memx i) :
    (freeAll memx (mallocAll memx sizes d).1 e).memmap memx =
      fun i => if d.memmap memx i = 0 then 0 else e.memmap memx i := by
  induction sizes generalizing d e with
  | nil =>
      funext i
      simp only [freeAll, mallocAll] at hmap ⊢
      grind
  | cons size sizes ih =>
      obtain ⟨-, heq⟩ | ⟨hroom, i, hle, hi, hfree, heq⟩ := mymalloc_cases hrdy size
      · simp only [mallocAll, heq] at hmap ⊢
        have hnull : myfree memx 0 e = e := if_pos rfl
        rw [freeAll, hnull]
        exact ih hrdy he hbase hmap
      · simp only [mallocAll, heq] at hmap ⊢
        have hpos := units_pos hroom.1
        have hne : UInt32.ofNat (units size) ≠ 0 := @ofNat_ne_zero memx _ hpos (by omega)
        have hmark := d.memmap_mark memx i size
        have hg := grown_mallocAll (d := d.mark memx i size) hrdy sizes
        -- the block still has the entries it was given
        have hentry : e.memmap memx i = UInt32.ofNat (units size) := by
          have hi' := d.memmap_mark_self memx i hroom.1
          rw [hmap i (hfree i (Nat.le_refl _) (by omega)), hg.memmap i (by rwa [hi']), hi']
        have hptr : d.ptrAt memx i = e.ptrAt memx i := by
          rw [MallcoDev.ptrAt, MallcoDev.ptrAt, hbase]
        have hunits : units size ≤ mapLen memx := by omega
        have hclear : ∀ j, (e.setMap memx (fill (e.memmap memx) i 0 (units size))).memmap memx j =
            if i ≤ j ∧ j < i + units size then 0 else e.memmap memx j := by
          intro j
          rw [MallcoDev.memmap_setMap_self, fill_apply]
        have hrest := ih (d := d.mark memx i size)
          (e := e.setMap memx (fill (e.memmap memx) i 0 (units size))) hrdy he
          (by rw [MallcoDev.membase_mark, MallcoDev.membase_setMap, hbase])
          (by
            intro j hj
            rw [hmark] at hj
            rw [hclear]
            grind)
        rw [freeAll, hptr, myfree_ptrAt he hi hunits hentry, hrest]
        funext j
        simp only [hmark, hclear]
        grind

/-- Where every pointer is good, there was room for every block. -/
theorem hasRoom_of_mallocAll (hrdy : d.memrdy memx ≠ 0) (h : 0 ∉ (mallocAll memx sizes d).1) :
    ∀ size ∈ sizes, HasRoom d memx size := by
  induction sizes generalizing d with
  | nil => simp
  | cons size sizes ih =>
      simp only [mallocAll, List.mem_cons, not_or] at h
      have hg := grown_mymalloc hrdy size
      have hroom : HasRoom d memx size := by
        by_contra hno
        exact h.1 ((mymalloc_eq_zero_iff hrdy size).mpr hno).symm
      exact List.forall_mem_cons.mpr
        ⟨hroom, fun size' hmem => (ih hg.ready h.2 size' hmem).of_grown hg⟩

theorem myfree_ready (hrdy : d.memrdy memx ≠ 0) (ptr : UInt32) :
    (myfree memx ptr d).memrdy = d.memrdy ∧ (myfree memx ptr d).membase = d.membase := by
  unfold myfree my_mem_free
  split_ifs <;> simp

theorem freeAll_ready (hrdy : d.memrdy memx ≠ 0) (ptrs : List UInt32) :
    (freeAll memx ptrs d).memrdy = d.memrdy ∧ (freeAll memx ptrs d).membase = d.membase := by
  induction ptrs generalizing d with
  | nil => exact ⟨rfl, rfl⟩
  | cons ptr ptrs ih =>
      obtain ⟨hready, hbase⟩ := myfree_ready hrdy ptr
      obtain ⟨hready', hbase'⟩ := ih (by rwa [hready])
      exact ⟨hready'.trans hready, hbase'.trans hbase⟩

/-- Taking blocks and giving them back leaves the map as it was. -/
theorem memmap_freeAll (hrdy : d.memrdy memx ≠ 0) (sizes : List UInt32) :
    (freeAll memx (mallocAll memx sizes d).1 (mallocAll memx sizes d).2).memmap memx =
      d.memmap memx := by
  have hg := grown_mallocAll hrdy sizes
  rw [freeAll_mallocAll hrdy hg.ready hg.membase fun _ _ => rfl]
  funext i
  by_cases hi : d.memmap memx i = 0
  · simp [hi]
  · simp [hi, hg.memmap i hi]

/-- So the pool is as good as before. -/
theorem grown_freeAll (hrdy : d.memrdy memx ≠ 0) (sizes : List UInt32) :
    Grown memx d (freeAll memx (mallocAll memx sizes d).1 (mallocAll memx sizes d).2) := by
  have hg := grown_mallocAll hrdy sizes
  obtain ⟨hready, hbase⟩ := freeAll_ready hg.ready (mallocAll memx sizes d).1
  exact ⟨hready ▸ hg.ready, hbase.trans hg.membase, fun i _ => by rw [memmap_freeAll hrdy]⟩

end several

/-! ## The parts of the start -/

section start

variable {s : NetMem} (env : NetEnv)

/-- The sizes the Ethernet driver asks for. -/
def ethSizes : List UInt32 := [10 * 32, 5 * 32, 1524 * 10, 1524 * 5]

/-- The sizes lwIP asks for. -/
def lwipSizes : List UInt32 := [env.memp_get_memorysize, 16000 + 2 * 12 + 4, 1000 * 4, 128 * 4]

/-- The driver takes what it gets, and reports no error. -/
theorem ETH_Mem_Malloc_eq (s : NetMem) :
    (ETH_Mem_Malloc env s).1 = 0 ∧
      (ETH_Mem_Malloc env s).2.dev = (mallocAll .SRAMIN ethSizes s.dev).2 := by
  have haddr : ¬ (env.DMARxDscrTab.addr = 0 ∨ env.DMATxDscrTab.addr = 0 ∨
      env.Rx_Buff.addr = 0 ∨ env.Tx_Buff.addr = 0) := by
    simp [env.DMARxDscrTab.ne_zero, env.DMATxDscrTab.ne_zero, env.Rx_Buff.ne_zero,
      env.Tx_Buff.ne_zero]
  simp only [ETH_Mem_Malloc, if_neg haddr, ethSizes, mallocAll, and_self]

/-- lwIP takes its four blocks, or gives back those it got. -/
theorem lwip_comm_mem_malloc_cases (s : NetMem) :
    (0 ∈ (mallocAll .SRAMIN (lwipSizes env) s.dev).1 ∧ (lwip_comm_mem_malloc env s).1 = 1 ∧
        (lwip_comm_mem_malloc env s).2.dev =
          freeAll .SRAMIN (mallocAll .SRAMIN (lwipSizes env) s.dev).1
            (mallocAll .SRAMIN (lwipSizes env) s.dev).2) ∨
      (0 ∉ (mallocAll .SRAMIN (lwipSizes env) s.dev).1 ∧ (lwip_comm_mem_malloc env s).1 = 0 ∧
        (lwip_comm_mem_malloc env s).2.dev = (mallocAll .SRAMIN (lwipSizes env) s.dev).2) := by
  simp only [lwip_comm_mem_malloc, lwip_comm_mem_free, lwipSizes, mallocAll, freeAll,
    List.mem_cons, List.not_mem_nil, or_false, eq_comm (a := (0 : UInt32))]
  split
  · next h => exact Or.inl ⟨h, by simp only, by simp only⟩
  · next h => exact Or.inr ⟨h, by simp only, by simp only⟩

theorem grown_tcpip_init (hrdy : s.dev.memrdy .SRAMIN ≠ 0) :
    Grown .SRAMIN s.dev (tcpip_init env s).dev := by
  rw [tcpip_init]
  simp only
  split
  · simpa only [mallocAll, freeAll] using grown_freeAll hrdy [4 + 4 * 20]
  · exact grown_mymalloc hrdy (4 + 4 * 20)

/-- Behind the driver's blocks the start takes free entries only. -/
theorem grown_lwip_comm_init (hrdy : s.dev.memrdy .SRAMIN ≠ 0) :
    Grown .SRAMIN (mallocAll .SRAMIN ethSizes s.dev).2 (lwip_comm_init env s).2.dev := by
  obtain ⟨hret, heth⟩ := ETH_Mem_Malloc_eq env s
  have hg := grown_mallocAll hrdy ethSizes
  rw [← heth] at hg ⊢
  have hlwip : Grown .SRAMIN (ETH_Mem_Malloc env s).2.dev
      (lwip_comm_mem_malloc env (ETH_Mem_Malloc env s).2).2.dev := by
    obtain ⟨-, -, hdev⟩ | ⟨-, -, hdev⟩ := lwip_comm_mem_malloc_cases env (ETH_Mem_Malloc env s).2
    · rw [hdev]
      exact grown_freeAll hg.ready _
    · rw [hdev]
      exact grown_mallocAll hg.ready _
  have htcpip := hlwip.trans (grown_tcpip_init env hlwip.ready)
  rw [lwip_comm_init, if_neg (not_not.mpr hret)]
  generalize lwip_comm_mem_malloc env (ETH_Mem_Malloc env s).2 = r at hlwip htcpip ⊢
  simp only
  split_ifs
  · exact hlwip
  · exact hlwip
  · exact htcpip
  · exact htcpip

/-- The driver needs three entries in a row for its smallest block. -/
theorem hasRoom_ethSizes_iff {d : MallcoDev} :
    (∃ size ∈ ethSizes, HasRoom d .SRAMIN size) ↔ HasRoom d .SRAMIN (5 * 32) := by
  have hle : ∀ size ∈ ethSizes, units (5 * 32) ≤ units size := by simp [ethSizes, units]
  constructor
  · intro ⟨size, hmem, h⟩
    exact h.mono (by decide) (hle size hmem)
  · intro h
    exact ⟨5 * 32, by simp [ethSizes], h⟩

/-- With room for it an entry stays taken, whatever the outcome. -/
theorem lwip_comm_init_takes (hrdy : s.dev.memrdy .SRAMIN ≠ 0)
    (hroom : HasRoom s.dev .SRAMIN (5 * 32)) :
    ∃ i < mapLen .SRAMIN, s.dev.memmap .SRAMIN i = 0 ∧
      (lwip_comm_init env s).2.dev.memmap .SRAMIN i ≠ 0 := by
  obtain ⟨i, hi, hfree, htaken⟩ := mallocAll_takes hrdy (hasRoom_ethSizes_iff.mpr hroom)
  have hg := grown_lwip_comm_init env hrdy
  exact ⟨i, hi, hfree, by rwa [hg.memmap i htaken]⟩

/-- Without room for it the start fails at lwIP's blocks, and nothing has changed. -/
theorem lwip_comm_init_no_room (hrdy : s.dev.memrdy .SRAMIN ≠ 0)
    (hroom : ¬ HasRoom s.dev .SRAMIN (5 * 32)) :
    (lwip_comm_init env s).1 = 2 ∧
      (lwip_comm_init env s).2.dev.memmap .SRAMIN = s.dev.memmap .SRAMIN := by
  obtain ⟨hret, heth⟩ := ETH_Mem_Malloc_eq env s
  have hnone : ∀ size ∈ ethSizes, ¬ HasRoom s.dev .SRAMIN size := by
    intro size hmem h
    exact hroom (hasRoom_ethSizes_iff.mp ⟨size, hmem, h⟩)
  rw [mallocAll_of_no_room hrdy hnone] at heth
  obtain ⟨-, hfail, hdev⟩ | ⟨hgood, -, -⟩ :=
    lwip_comm_mem_malloc_cases env (ETH_Mem_Malloc env s).2
  · rw [heth] at hdev
    simp only [lwip_comm_init, hret, hfail, ne_eq, not_true, if_false]
    rw [if_pos (by decide), hdev]
    exact ⟨rfl, memmap_freeAll hrdy _⟩
  · -- the heap alone needs more than three entries
    rw [heth] at hgood
    have hheap := hasRoom_of_mallocAll hrdy hgood (16000 + 2 * 12 + 4) (by simp [lwipSizes])
    exact absurd (hheap.mono (by decide) (by decide)) hroom

end start

/-! ## Failed starts -/

/-- The map of a pool that was not initialised yet is as the reset leaves it. -/
def PoolClean (d : MallcoDev) : Prop :=
  d.memrdy .SRAMIN = 0 → ∀ i < mapLen .SRAMIN, d.memmap .SRAMIN i = 0

/-- The pool has three free entries in a row. -/
def ThreeFree (d : MallcoDev) : Prop := Room (d.free .SRAMIN) 3 (mapLen .SRAMIN)

theorem hasRoom_iff_threeFree {d : MallcoDev} : HasRoom d .SRAMIN (5 * 32) ↔ ThreeFree d :=
  and_iff_right (by decide)

/-- The first block initialises the pool. -/
theorem lwip_comm_init_of_not_ready {s : NetMem} (h : s.dev.memrdy .SRAMIN = 0) (env : NetEnv) :
    lwip_comm_init env s = lwip_comm_init env { s with dev := my_mem_init .SRAMIN s.dev } := by
  have heth : ETH_Mem_Malloc env s =
      ETH_Mem_Malloc env { s with dev := my_mem_init .SRAMIN s.dev } := by
    rw [ETH_Mem_Malloc, mymalloc_of_not_ready h, ETH_Mem_Malloc]
  rw [lwip_comm_init, heth, lwip_comm_init]

/-- What a start does to the map. -/
structure Started (d d' : MallcoDev) : Prop where
  ready : d'.memrdy .SRAMIN ≠ 0
  kept : ∀ i, d.memmap .SRAMIN i ≠ 0 → d'.memmap .SRAMIN i = d.memmap .SRAMIN i
  taken : ThreeFree d → ∃ i < mapLen .SRAMIN, d.memmap .SRAMIN i = 0 ∧ d'.memmap .SRAMIN i ≠ 0
  same : ¬ ThreeFree d → d'.memmap .SRAMIN = d.memmap .SRAMIN

theorem started_lwip_comm_init {s : NetMem} (hclean : PoolClean s.dev) (env : NetEnv) :
    Started s.dev (lwip_comm_init env s).2.dev := by
  have hready : ∀ s : NetMem, s.dev.memrdy .SRAMIN ≠ 0 →
      Started s.dev (lwip_comm_init env s).2.dev := by
    intro s hrdy
    have hg := (grown_mallocAll hrdy ethSizes).trans (grown_lwip_comm_init env hrdy)
    exact ⟨hg.ready, hg.memmap,
      fun h => lwip_comm_init_takes env hrdy (hasRoom_iff_threeFree.mpr h),
      fun h => (lwip_comm_init_no_room env hrdy (mt hasRoom_iff_threeFree.mp h)).2⟩
  by_cases hrdy : s.dev.memrdy .SRAMIN = 0
  · rw [lwip_comm_init_of_not_ready hrdy]
    have hmap : (my_mem_init .SRAMIN s.dev).memmap .SRAMIN = s.dev.memmap .SRAMIN := by
      funext i
      have hzero := hclean hrdy i
      rw [memmap_my_mem_init, fill_apply]
      grind
    have hfree : (my_mem_init .SRAMIN s.dev).free .SRAMIN = s.dev.free .SRAMIN := by
      funext i
      rw [MallcoDev.free, MallcoDev.free, hmap]
    obtain ⟨hr, hkept, htaken, hsame⟩ :=
      hready { s with dev := my_mem_init .SRAMIN s.dev } (by simp)
    rw [ThreeFree, hfree] at htaken hsame
    rw [hmap] at hkept htaken hsame
    exact ⟨hr, hkept, htaken, hsame⟩
  · exact hready s hrdy

/-- **A failed start leaves the map as it was exactly when the pool has no three free entries
in a row.** -/
theorem start_failed_iff {s : NetMem} (hclean : PoolClean s.dev) (env : NetEnv) :
    (lwip_comm_init env s).1 ≠ 0 →
      ((lwip_comm_init env s).2.dev.memmap .SRAMIN = s.dev.memmap .SRAMIN ↔ ¬ ThreeFree s.dev) := by
  intro _
  have hstart := started_lwip_comm_init hclean env
  refine ⟨fun hmap hfree => ?_, hstart.same⟩
  obtain ⟨i, -, hzero, hne⟩ := hstart.taken hfree
  rw [hmap] at hne
  exact hne hzero

/-- Without a PHY no start succeeds. -/
theorem lwip_comm_init_ne_zero {env : NetEnv} (h : phyReady env.LAN8720_Init 6 0 = false)
    (s : NetMem) : (lwip_comm_init env s).1 ≠ 0 := by
  rw [lwip_comm_init]
  generalize ETH_Mem_Malloc env s = r
  simp only [h, if_true]
  generalize lwip_comm_mem_malloc env r.2 = r'
  split_ifs <;> simp

/-- A pool that was initialised, with nothing in it. -/
def freshMem : NetMem :=
  ⟨⟨⟨0x20000000, by decide, by decide⟩, fun _ _ => 0, fun _ => 1⟩, 0, 0, 0, 0, 0, 0, 0, 0, 0⟩

/-- A PHY that never answers. -/
def deadPhy : NetEnv :=
  ⟨⟨0x20020000, by decide⟩, ⟨0x20020004, by decide⟩, ⟨0x20020008, by decide⟩,
    ⟨0x2002000C, by decide⟩, 12000, fun _ => 1, true, true⟩

theorem start_failed_dead :
    (lwip_comm_init deadPhy freshMem).1 ≠ 0 ∧
      ((lwip_comm_init deadPhy freshMem).2.dev.memmap .SRAMIN = freshMem.dev.memmap .SRAMIN ↔
        ¬ ThreeFree freshMem.dev) :=
  have hret := @lwip_comm_init_ne_zero deadPhy rfl freshMem
  ⟨hret, start_failed_iff (fun h => absurd h (by decide)) deadPhy hret⟩

/-- The driver's blocks stay behind. -/
theorem start_leaks :
    (lwip_comm_init deadPhy freshMem).1 ≠ 0 ∧
      (lwip_comm_init deadPhy freshMem).2.dev.memmap .SRAMIN ≠ freshMem.dev.memmap .SRAMIN := by
  refine ⟨lwip_comm_init_ne_zero rfl freshMem, fun hmap => ?_⟩
  have hroom : HasRoom freshMem.dev .SRAMIN (5 * 32) :=
    ⟨by decide, 0, by decide, fun _ _ _ => rfl⟩
  obtain ⟨i, -, hzero, hne⟩ := lwip_comm_init_takes deadPhy (by decide) hroom
  rw [hmap] at hne
  exact hne hzero

/-! ## The loop of `main` -/

/-- One more pass of `while(lwip_comm_init())`. -/
def retryStart (s : NetMem) (env : NetEnv) : Option NetMem :=
  if (lwip_comm_init env s).1 ≠ 0 then some (lwip_comm_init env s).2 else none

/-- The number of entries in use. -/
def usedEntries (d : MallcoDev) : Nat :=
  ((Finset.range (mapLen .SRAMIN)).filter fun i => d.memmap .SRAMIN i ≠ 0).card

/-- A start with room for the driver's smallest block uses up an entry at least. -/
theorem usedEntries_lt {d d' : MallcoDev} (h : Started d d') (hfree : ThreeFree d) :
    usedEntries d < usedEntries d' := by
  obtain ⟨i, hi, hzero, hne⟩ := h.taken hfree
  refine Finset.card_lt_card (Finset.ssubset_iff_of_subset ?_ |>.mpr ⟨i, ?_, ?_⟩)
  · intro j hj
    rw [Finset.mem_filter] at hj ⊢
    exact ⟨hj.1, by rw [h.kept j hj.2]; exact hj.2⟩
  · exact Finset.mem_filter.mpr ⟨Finset.mem_range.mpr hi, hne⟩
  · intro hmem
    exact (Finset.mem_filter.mp hmem).2 hzero

/-- No start makes room. -/
theorem ThreeFree.of_started {d d' : MallcoDev} (hfree : ThreeFree d') (h : Started d d') :
    ThreeFree d := by
  by_contra hno
  have hsame : d'.free .SRAMIN = d.free .SRAMIN := by
    funext i
    rw [MallcoDev.free, MallcoDev.free, h.same hno]
  rw [ThreeFree, hsame] at hfree
  exact hno hfree

/-- As long as there is room, every pass uses up an entry. -/
theorem usedEntries_retry {s s' : NetMem} {envs : List NetEnv} (hclean : PoolClean s.dev)
    (hrun : run retryStart s envs = some s') (hfree : ThreeFree s'.dev) :
    ThreeFree s.dev ∧ usedEntries s.dev + envs.length ≤ usedEntries s'.dev := by
  induction envs generalizing s with
  | nil =>
      have hs : s = s' := Option.some.inj hrun
      subst hs
      exact ⟨hfree, (Nat.add_zero _).le⟩
  | cons env envs ih =>
      obtain ⟨t, ht, hrest⟩ := run_cons_eq_some.mp hrun
      simp only [retryStart, Option.ite_none_right_eq_some, Option.some.injEq] at ht
      have hstart := started_lwip_comm_init hclean env
      rw [ht.2] at hstart
      obtain ⟨hfree', hle⟩ := ih (fun h => absurd h hstart.ready) hrest
      have hlt := usedEntries_lt hstart (hfree'.of_started hstart)
      rw [List.length_cons]
      exact ⟨hfree'.of_started hstart, by omega⟩

/-- **The loop of `main` uses the pool up**: after as many failed starts as the map has entries
no three are free in a row. -/
theorem retry_exhausts {s s' : NetMem} {envs : List NetEnv} (hclean : PoolClean s.dev)
    (hrun : run retryStart s envs = some s') (hlen : mapLen .SRAMIN < envs.length) :
    ¬ ThreeFree s'.dev := by
  intro hfree
  obtain ⟨-, hle⟩ := usedEntries_retry hclean hrun hfree
  have hcard : usedEntries s'.dev ≤ mapLen .SRAMIN :=
    (Finset.card_filter_le _ _).trans_eq (Finset.card_range _)
  omega

end NetCamera
