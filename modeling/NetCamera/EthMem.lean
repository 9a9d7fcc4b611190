import NetCamera.NetStart

/-!
# NetCamera.EthMem

What `ETH_Mem_Malloc` reports.

The function returns 0 whatever the four allocations return, as its test is about
the addresses of the pointers.  So it is right where all four succeed.  Each block
takes the highest run that is long enough (`mymalloc_exact`), so that whether they
succeed is a question about the map before the call (`mallocAll_good_iff`).
-/

namespace NetCamera

open BlockMap

section good

variable {d : MallcoDev} {memx : Memx} {sizes : List UInt32}

/-- The free entries behind an allocation. -/
theorem free_mark (d : MallcoDev) {memx : Memx} {i : Nat} {size : UInt32} (hzero : size ≠ 0)
    (hle : i + units size ≤ mapLen memx) :
    (d.mark memx i size).free memx =
      fun j => d.free memx j && !(decide (i ≤ j) && decide (j < i + units size)) := by
  have hne : UInt32.ofNat (units size) ≠ 0 := @ofNat_ne_zero memx _ (units_pos hzero) (by omega)
  funext j
  rw [MallcoDev.free, MallcoDev.free, MallcoDev.memmap_mark]
  split
  · next hin => simp [hne, hin]
  · next hout =>
    rw [← Bool.decide_and, decide_eq_false hout, Bool.not_false, Bool.and_true]

/-- **All of several blocks are granted** exactly when they fit one after the other. -/
theorem mallocAll_good_iff (hrdy : d.memrdy memx ≠ 0) (hsizes : ∀ size ∈ sizes, size ≠ 0) :
    0 ∉ (mallocAll memx sizes d).1 ↔ FitsAll (mapLen memx) (d.free memx) (sizes.map units) := by
  induction sizes generalizing d with
  | nil => simp [mallocAll, FitsAll]
  | cons size sizes ih =>
      rw [List.forall_mem_cons] at hsizes
      have hexact := mymalloc_exact hrdy size
      simp only [mallocAll, List.mem_cons, not_or, List.map_cons, FitsAll]
      by_cases hnull : (mymalloc memx size d).1 = 0
      · have hnone := (hexact.fails.mp hnull).resolve_left hsizes.1
        refine iff_of_false (fun h => h.1 hnull.symm) ?_
        rintro ⟨start, hrun, -⟩
        exact hnone start hrun.1
      · obtain ⟨-, heq⟩ | ⟨-, i, hrun, hi, heq⟩ := my_mem_malloc_cases hrdy size
        · exact absurd (by rw [mymalloc_eq, heq, if_pos rfl]) hnull
        · have hdev : (mymalloc memx size d).2 = d.mark memx i size := by rw [mymalloc_eq, heq]
          rw [hdev, ih (d := d.mark memx i size) hrdy hsizes.2, free_mark d hsizes.1 hrun.1.1]
          constructor
          · rintro ⟨-, hrest⟩
            exact ⟨i, hrun, hrest⟩
          · rintro ⟨start, hrun', hrest⟩
            have hstart : start = i :=
              Nat.le_antisymm (hrun.2 start hrun'.1) (hrun'.2 i hrun.1)
            exact ⟨fun h => hnull h.symm, hstart ▸ hrest⟩

end good

/-- What is asked of the driver: it reports success exactly with four good pointers, and
otherwise gives back what it took. -/
structure EthTruthful (env : NetEnv) (s : NetMem) : Prop where
  success : (ETH_Mem_Malloc env s).1 = 0 ↔
    (ETH_Mem_Malloc env s).2.DMARxDscrTab ≠ 0 ∧ (ETH_Mem_Malloc env s).2.DMATxDscrTab ≠ 0 ∧
      (ETH_Mem_Malloc env s).2.Rx_Buff ≠ 0 ∧ (ETH_Mem_Malloc env s).2.Tx_Buff ≠ 0
  undone : (ETH_Mem_Malloc env s).1 ≠ 0 →
    (ETH_Mem_Malloc env s).2.dev.memmap .SRAMIN = s.dev.memmap .SRAMIN

/-- The entries that are free when the driver asks: all of them, where its first call
initialises the pool. -/
def freeAtCall (d : MallcoDev) (i : Nat) : Bool :=
  d.memrdy .SRAMIN = 0 || d.free .SRAMIN i

/-- The pool has the runs that the driver's four blocks need. -/
def EthFits (d : MallcoDev) : Prop := FitsAll (mapLen .SRAMIN) (freeAtCall d) [5, 3, 239, 120]

section driver

variable (env : NetEnv)

/-- The driver's pointers are those it was given. -/
theorem ETH_Mem_Malloc_ptrs (s : NetMem) :
    [(ETH_Mem_Malloc env s).2.DMARxDscrTab, (ETH_Mem_Malloc env s).2.DMATxDscrTab,
      (ETH_Mem_Malloc env s).2.Rx_Buff, (ETH_Mem_Malloc env s).2.Tx_Buff] =
      (mallocAll .SRAMIN ethSizes s.dev).1 := by
  have haddr : ¬ (env.DMARxDscrTab.addr = 0 ∨ env.DMATxDscrTab.addr = 0 ∨
      env.Rx_Buff.addr = 0 ∨ env.Tx_Buff.addr = 0) := by
    simp [env.DMARxDscrTab.ne_zero, env.DMATxDscrTab.ne_zero, env.Rx_Buff.ne_zero,
      env.Tx_Buff.ne_zero]
  simp only [ETH_Mem_Malloc, if_neg haddr, ethSizes, mallocAll]

/-- The first call initialises the pool. -/
theorem ETH_Mem_Malloc_of_not_ready {s : NetMem} (h : s.dev.memrdy .SRAMIN = 0) :
    ETH_Mem_Malloc env s = ETH_Mem_Malloc env { s with dev := my_mem_init .SRAMIN s.dev } := by
  rw [ETH_Mem_Malloc, mymalloc_of_not_ready h, ETH_Mem_Malloc]

/-- **All four pointers are good** exactly when the blocks fit. -/
theorem eth_ptrs_good_iff (s : NetMem) :
    (ETH_Mem_Malloc env s).2.DMARxDscrTab ≠ 0 ∧ (ETH_Mem_Malloc env s).2.DMATxDscrTab ≠ 0 ∧
      (ETH_Mem_Malloc env s).2.Rx_Buff ≠ 0 ∧ (ETH_Mem_Malloc env s).2.Tx_Buff ≠ 0 ↔
      EthFits s.dev := by
  have hunits : ethSizes.map units = [5, 3, 239, 120] := rfl
  have hne : ∀ size ∈ ethSizes, size ≠ 0 := by simp [ethSizes]
  have hready : ∀ s : NetMem, s.dev.memrdy .SRAMIN ≠ 0 →
      ((ETH_Mem_Malloc env s).2.DMARxDscrTab ≠ 0 ∧ (ETH_Mem_Malloc env s).2.DMATxDscrTab ≠ 0 ∧
        (ETH_Mem_Malloc env s).2.Rx_Buff ≠ 0 ∧ (ETH_Mem_Malloc env s).2.Tx_Buff ≠ 0 ↔
        FitsAll (mapLen .SRAMIN) (s.dev.free .SRAMIN) [5, 3, 239, 120]) := by
    intro s hrdy
    rw [← hunits, ← mallocAll_good_iff hrdy hne, ← ETH_Mem_Malloc_ptrs env]
    simp only [List.mem_cons, List.not_mem_nil, or_false, not_or, ne_eq,
      eq_comm (a := (0 : UInt32))]
  by_cases hrdy : s.dev.memrdy .SRAMIN = 0
  · have hfree : ∀ i < mapLen .SRAMIN,
        (my_mem_init .SRAMIN s.dev).free .SRAMIN i = freeAtCall s.dev i := by
      intro i hi
      rw [freeAtCall, hrdy, MallcoDev.free, memmap_my_mem_init, fill_apply, if_pos (by omega)]
      rfl
    rw [ETH_Mem_Malloc_of_not_ready env hrdy, hready _ (by simp), EthFits]
    exact ⟨FitsAll.congr hfree, FitsAll.congr fun i hi => (hfree i hi).symm⟩
  · have hfree : freeAtCall s.dev = s.dev.free .SRAMIN := by
      funext i
      rw [freeAtCall, decide_eq_false hrdy, Bool.false_or]
    rw [hready s hrdy, EthFits, hfree]

end driver

/-- **The driver's report is true exactly when the four blocks fit.** -/
theorem eth_truthful_iff (env : NetEnv) (s : NetMem) : EthTruthful env s ↔ EthFits s.dev := by
  have hret := (ETH_Mem_Malloc_eq env s).1
  constructor
  · intro h
    exact (eth_ptrs_good_iff env s).mp (h.success.mp hret)
  · intro hfits
    exact ⟨iff_of_true hret ((eth_ptrs_good_iff env s).mpr hfits), fun hne => absurd hret hne⟩

/-- A pool that one block fills. -/
def fullMem : NetMem := { freshMem with dev := { freshMem.dev with memmap := fun _ _ => 1600 } }

/-- Null pointers, and yet 0 is returned. -/
theorem eth_reports_success :
    (ETH_Mem_Malloc deadPhy fullMem).1 = 0 ∧
      (ETH_Mem_Malloc deadPhy fullMem).2.DMARxDscrTab = 0 ∧ ¬ EthTruthful deadPhy fullMem := by
  have hret := (ETH_Mem_Malloc_eq deadPhy fullMem).1
  have hrdy : fullMem.dev.memrdy .SRAMIN ≠ 0 := by decide
  have hnull : (mymalloc .SRAMIN (10 * 32) fullMem.dev).1 = 0 := by
    rcases my_mem_malloc_cases hrdy (10 * 32) with ⟨-, heq⟩ | ⟨-, i, hrun, -⟩
    · rw [mymalloc_eq, heq, if_pos rfl]
    · have hfree := hrun.1.2 i (Nat.le_refl _) (Nat.lt_add_of_pos_right (by decide))
      exact absurd hfree (by simp [fullMem, MallcoDev.free])
  have hptr : (ETH_Mem_Malloc deadPhy fullMem).2.DMARxDscrTab = 0 := by
    rw [← hnull]
    exact (List.cons.inj (ETH_Mem_Malloc_ptrs deadPhy fullMem)).1
  exact ⟨hret, hptr, fun h => (h.success.mp hret).1 hptr⟩

end NetCamera
