import NetCamera.Eth.Transmit

/-!
# NetCamera.Eth.Wire

What is on the wire: the frames whose call returned `ERR_OK`, in order and byte by byte
(`run_sent`), and all of them once the DMA has stopped (`run_stops`).

The invariant keeps books of descriptors: those the DMA has read and those it still owns are the
segments of the accepted frames and of the one just being handed over (`Books`).  What the driver
has copied of the next frame lies in buffers the DMA does not own (`Copied`).  Both are about
frames that fit into the five buffers: `low_level_output` does not look at the length, and a
longer frame comes round to descriptors of its own.
-/

namespace NetCamera.Eth

open Run Chunks

namespace Tx

/-- A chain that fits into the buffers. -/
def Fits (p : Chain) : Prop := p.flatten.length ≤ ETH_TXBUFNB * ETH_TX_BUF_SIZE

/-- The segments that were handed over of a frame whose call has not returned. -/
def handing : TxPc → List Segment
  | .hand p _ i => (segments p.flatten).take i
  | .poll p => segments p.flatten
  | _ => []

/-- The descriptors: `c` of them are the DMA's, from the one it comes to next up to the one the
driver does; and the segments in those it has read and in these are accounted for. -/
structure Books (os : List (Chain × Err)) (s : Tx) (c : Nat) : Prop where
  marked : Ring.Marked s.own ETH_TXBUFNB s.dma c
  at_end : s.TxDesc = (s.dma + c) % ETH_TXBUFNB
  read : ∃ gs, gs.foldl Segment.read ([], []) = (s.frame, s.wire) ∧
    gs ++ Ring.contents s.segment ETH_TXBUFNB s.dma c =
      (accepted os).flatMap segments ++ handing s.pc

/-- `done` has been copied, the last of it to descriptor `desc` up to `off`, and none of its
descriptors is the DMA's. -/
def Copied (s : Tx) (c : Nat) (done : List UInt8) (desc off framelength : Nat) : Prop :=
  ∃ j, desc = (s.TxDesc + j) % ETH_TXBUFNB ∧ framelength = done.length ∧
    done.length = j * ETH_TX_BUF_SIZE + off ∧ off ≤ ETH_TX_BUF_SIZE ∧ c + j < ETH_TXBUFNB ∧
    Lies s.Tx_Buff ETH_TXBUFNB s.TxDesc done

/-- What holds where the driver is, while `c` descriptors are the DMA's. -/
def AtPc (s : Tx) (c : Nat) : TxPc → Prop
  | .thread => True
  | .chain p q desc off framelength => Fits p ∧ ∃ done, p.flatten = done ++ q.flatten ∧
      ((done = [] ∧ desc = s.TxDesc ∧ off = 0 ∧ framelength = 0) ∨
        Copied s c done desc off framelength)
  | .piece p payload q desc off framelength => Fits p ∧
      ∃ done, p.flatten = done ++ (payload ++ q.flatten) ∧ Copied s c done desc off framelength
  | .moved p payload q desc framelength => Fits p ∧ payload ≠ [] ∧
      ∃ done j, p.flatten = done ++ (payload ++ q.flatten) ∧
        desc = (s.TxDesc + j) % ETH_TXBUFNB ∧ framelength = done.length ∧
        done.length = j * ETH_TX_BUF_SIZE ∧ c + j ≤ ETH_TXBUFNB ∧
        Lies s.Tx_Buff ETH_TXBUFNB s.TxDesc done
  | .transmit p framelength => framelength = p.flatten.length ∧
      (framelength ≠ 0 → c + bufcount framelength ≤ ETH_TXBUFNB ∧
        Lies s.Tx_Buff ETH_TXBUFNB s.TxDesc p.flatten)
  | .hand p framelength i => framelength = p.flatten.length ∧ framelength ≠ 0 ∧
      i < bufcount framelength ∧ c + (bufcount framelength - i) ≤ ETH_TXBUFNB ∧
      Lies s.Tx_Buff ETH_TXBUFNB s.TxDesc (p.flatten.drop (i * ETH_TX_BUF_SIZE))
  | .poll p => p.flatten ≠ []

/-- The invariant; a suspended DMA owns nothing, unless the driver is about to wake it. -/
def Inv (os : List (Chain × Err)) (s : Tx) : Prop :=
  ∃ c, Books os s c ∧ AtPc s c s.pc ∧ (s.TBUS = true → c = 0 ∨ handing s.pc ≠ [])

section Steps

variable {os : List (Chain × Err)} {s s' : Tx} {c : Nat}

/-! ## The DMA -/

theorem Copied.mono {c' : Nat} (hc : c' ≤ c) {done : List UInt8} {desc off framelength : Nat}
    (h : Copied s c done desc off framelength) (hdesc : s'.TxDesc = s.TxDesc)
    (hbuf : s'.Tx_Buff = s.Tx_Buff) : Copied s' c' done desc off framelength := by
  obtain ⟨j, hd, hlen, hj, hoff, hfree, hlies⟩ := h
  exact ⟨j, hdesc ▸ hd, hlen, hj, hoff, by omega, by rwa [hdesc, hbuf]⟩

/-- When the DMA gives descriptors back, the driver is not disturbed. -/
theorem AtPc.mono {c' : Nat} {pc : TxPc} (hc : c' ≤ c) (h : AtPc s c pc)
    (hdesc : s'.TxDesc = s.TxDesc) (hbuf : s'.Tx_Buff = s.Tx_Buff) : AtPc s' c' pc := by
  cases pc with
  | thread => trivial
  | chain p q desc off framelength =>
      obtain ⟨hfits, done, hp, hor⟩ := h
      refine ⟨hfits, done, hp, hor.imp ?_ fun hcopied => hcopied.mono hc hdesc hbuf⟩
      exact fun hstart => ⟨hstart.1, hdesc ▸ hstart.2.1, hstart.2.2⟩
  | piece p payload q desc off framelength =>
      obtain ⟨hfits, done, hp, hcopied⟩ := h
      exact ⟨hfits, done, hp, hcopied.mono hc hdesc hbuf⟩
  | moved p payload q desc framelength =>
      obtain ⟨hfits, hne, done, j, hp, hd, hlen, hj, hfree, hlies⟩ := h
      exact ⟨hfits, hne, done, j, hp, hdesc ▸ hd, hlen, hj, by omega, by rwa [hdesc, hbuf]⟩
  | transmit p framelength =>
      obtain ⟨hlen, hor⟩ := h
      refine ⟨hlen, fun hne => ?_⟩
      obtain ⟨hfree, hlies⟩ := hor hne
      exact ⟨by omega, by rwa [hdesc, hbuf]⟩
  | hand p framelength i =>
      obtain ⟨hlen, hpos, hi, hfree, hlies⟩ := h
      exact ⟨hlen, hpos, hi, by omega, by rwa [hdesc, hbuf]⟩
  | poll p => exact h

/-- Whose a descriptor is after one of them was given back. -/
theorem own_update (s : Tx) (i : Nat) (d : TxDescriptor) :
    (fun j => (Function.update s.DMATxDscrTab i d j).OWN) = Function.update s.own i d.OWN := by
  funext j
  by_cases hj : j = i
  · rw [hj, Function.update_self, Function.update_self]
  · rw [Function.update_of_ne hj, Function.update_of_ne hj, own]

/-- The DMA reads a descriptor of its own and gives it back. -/
theorem Books.dma (h : Books os s (c + 1)) : Books os s.transmitDma c := by
  obtain ⟨gs, hread, hgs⟩ := h.read
  have hown : s.own s.dma = true := h.marked.own_out.mpr (Nat.succ_pos c)
  have hsame : s.transmitDma.segment = s.segment := by
    funext i
    rw [transmitDma, if_pos hown]
    simp only [segment]
    by_cases hi : i = s.dma
    · rw [hi, Function.update_self]
    · rw [Function.update_of_ne hi]
  rw [transmitDma, if_pos hown] at hsame ⊢
  refine ⟨h.marked.take.congr (own_update s s.dma _), ?_, gs ++ [s.segment s.dma], ?_, ?_⟩
  · rw [Ring.next_mod]
    exact h.at_end
  · rw [List.foldl_append, hread, List.foldl_cons, List.foldl_nil]
  · rw [hsame, List.append_assoc, List.singleton_append,
      ← Ring.contents_take s.segment h.marked.out_lt c]
    exact hgs

/-- The DMA stops. -/
theorem Books.stop (h : Books os s c) : Books os { s with TBUS := true } c :=
  ⟨h.marked, h.at_end, h.read⟩

theorem pc_transmitDma (s : Tx) : s.transmitDma.pc = s.pc := by
  rw [transmitDma]
  split <;> rfl

/-- A step of the DMA. -/
theorem inv_dma (h : Inv os s) : Inv os s.transmitDma := by
  obtain ⟨c, hbooks, hat, htbus⟩ := h
  by_cases hown : s.own s.dma = true
  · obtain ⟨c, rfl⟩ := Nat.exists_eq_succ_of_ne_zero (hbooks.marked.own_out.mp hown).ne'
    refine ⟨c, hbooks.dma, ?_, fun ht => .inr ?_⟩
    · rw [pc_transmitDma]
      rw [transmitDma, if_pos hown]
      exact hat.mono (Nat.le_succ c) rfl rfl
    · rw [transmitDma, if_pos hown] at ht ⊢
      exact (htbus ht).resolve_left (Nat.succ_ne_zero c)
  · have hzero := mt hbooks.marked.own_out.mpr hown
    have hstop := hbooks.stop
    rw [transmitDma, if_neg hown]
    exact ⟨c, hstop, hat.mono (Nat.le_refl c) rfl rfl, fun _ => .inl (by omega)⟩

/-! ## The driver -/

theorem accepted_append (os os' : List (Chain × Err)) :
    accepted (os ++ os') = accepted os ++ accepted os' := List.filterMap_append ..

theorem accepted_ok {p : Chain} (h : p.flatten ≠ []) :
    accepted [(p, .ERR_OK)] = [p.flatten] :=
  List.filterMap_cons_some (if_pos ⟨rfl, h⟩)

theorem accepted_of_nil {p : Chain} (e : Err) (h : p.flatten = []) : accepted [(p, e)] = [] :=
  List.filterMap_cons_none (if_neg fun hne => hne.2 h)

/-- The next descriptor of the circle. -/
theorem next_index (i j : Nat) :
    Ring.next ETH_TXBUFNB ((i + j) % ETH_TXBUFNB) = (i + (j + 1)) % ETH_TXBUFNB := by
  rw [Ring.next_eq_mod (Nat.mod_lt _ (by decide)), Nat.mod_add_mod, Nat.add_assoc]

theorem bufcount_le {n m : Nat} (hn : 0 < n) (h : n ≤ m * ETH_TX_BUF_SIZE) : bufcount n ≤ m := by
  have hlt := Nat.lt_of_lt_of_le (bufcount_lt hn) h
  have := Nat.lt_of_mul_lt_mul_right hlt
  omega

/-- A step that changes where the driver is and nothing else. -/
theorem Books.goOn (h : Books os s c) {pc : TxPc} {o : List (Chain × Err)} (ho : accepted o = [])
    (hpc : handing pc = handing s.pc) : Books (os ++ o) { s with pc := pc } c := by
  obtain ⟨gs, hread, hgs⟩ := h.read
  refine ⟨h.marked, h.at_end, gs, hread, ?_⟩
  rw [accepted_append, ho, List.append_nil]
  exact hgs.trans (by rw [hpc])

/-- A step that copies into a buffer which is not the DMA's. -/
theorem Books.copy (h : Books os s c) {j off : Nat} {xs : List UInt8} {pc : TxPc}
    (hfree : c + j < ETH_TXBUFNB) (hpc : handing pc = handing s.pc) :
    Books os { s.copy ((s.TxDesc + j) % ETH_TXBUFNB) off xs with pc := pc } c := by
  obtain ⟨gs, hread, hgs⟩ := h.read
  refine ⟨h.marked, h.at_end, gs, hread, ?_⟩
  rw [show handing _ = handing s.pc from hpc, ← hgs]
  congr 1
  refine Ring.contents_congr fun k hk => ?_
  have hne : (s.dma + k) % ETH_TXBUFNB ≠ (s.TxDesc + j) % ETH_TXBUFNB := by
    rw [h.at_end, Nat.mod_add_mod, Nat.add_assoc]
    exact Ring.index_ne (by omega) hfree
  simp only [segment, Tx.copy, Function.update_of_ne hne]

/-- What is copied next makes `done` longer. -/
theorem Copied.lies {done xs : List UInt8} {j off : Nat}
    (hlen : done.length = j * ETH_TX_BUF_SIZE + off) (hfree : c + j < ETH_TXBUFNB)
    (hlies : Lies s.Tx_Buff ETH_TXBUFNB s.TxDesc done)
    (hfit : off + xs.length ≤ ETH_TX_BUF_SIZE) :
    Lies (s.copy ((s.TxDesc + j) % ETH_TXBUFNB) off xs).Tx_Buff ETH_TXBUFNB s.TxDesc
      (done ++ xs) :=
  hlies.append hlen (by omega) hfit

/-- A descriptor that is not the DMA's is free to be written. -/
theorem Books.free_of_own (h : Books os s c) {j : Nat} (hj : c + j ≤ ETH_TXBUFNB)
    (hlt : j < ETH_TXBUFNB) (hown : ¬ s.own ((s.TxDesc + j) % ETH_TXBUFNB) = true) :
    c + j < ETH_TXBUFNB := by
  refine Nat.lt_of_le_of_ne hj fun heq => hown ?_
  rw [h.at_end, Nat.mod_add_mod, Nat.add_assoc, heq, Nat.add_mod_right,
    Nat.mod_eq_of_lt h.marked.out_lt]
  exact h.marked.own_out.mpr (by omega)

/-- The copy loop. -/
theorem inv_piece (hbooks : Books os s c) (htbus : s.TBUS = true → c = 0) {p q : Chain}
    {payload : List UInt8} {desc off framelength : Nat}
    (hpc : s.pc = .piece p payload q desc off framelength)
    (hat : AtPc s c (.piece p payload q desc off framelength)) (hk : s.driver = some s') :
    Inv os s' := by
  obtain ⟨hfits, done, hp, j, rfl, rfl, hlen, hoff, hfree, hlies⟩ := hat
  simp only [driver, hpc] at hk
  split at hk
  · next hlong =>
      obtain rfl := Option.some.inj hk
      have htake : (payload.take (ETH_TX_BUF_SIZE - off)).length = ETH_TX_BUF_SIZE - off := by
        rw [List.length_take]
        omega
      refine ⟨c, hbooks.copy hfree (by rw [hpc]; rfl), ⟨hfits, ?_, done ++ _, j + 1, ?_,
        next_index .., ?_, ?_, hfree, Copied.lies hlen hfree hlies (by omega)⟩,
        fun ht => .inl (htbus ht)⟩
      · exact List.ne_nil_of_length_pos (by rw [List.length_drop]; omega)
      · rw [hp, List.append_assoc, ← List.append_assoc (payload.take _), List.take_append_drop]
      · rw [List.length_append, htake]
      · rw [List.length_append, htake, hlen, Nat.succ_mul]
        omega
  · next hshort =>
      obtain rfl := Option.some.inj hk
      refine ⟨c, hbooks.copy hfree (by rw [hpc]; rfl), ⟨hfits, done ++ payload, ?_, .inr ⟨j, rfl,
        ?_, ?_, ?_, hfree, Copied.lies hlen hfree hlies ?_⟩⟩, fun ht => .inl (htbus ht)⟩
      · rw [hp, List.append_assoc]
      · rw [List.length_append]
      · rw [List.length_append, hlen, Nat.add_assoc]
      · omega
      · omega

theorem own_setUp (FrameLength i : Nat) : (setUp FrameLength i).OWN = true := by
  rw [setUp]
  split <;> rfl

/-- The segment that a descriptor set up for a frame stands for. -/
theorem segment_handOver {f : List UInt8} {i : Nat} (hne : f.length ≠ 0)
    (hi : i < bufcount f.length)
    (hlies : Lies s.Tx_Buff ETH_TXBUFNB s.TxDesc (f.drop (i * ETH_TX_BUF_SIZE)))
    (hlt : s.TxDesc < ETH_TXBUFNB) :
    (s.handOver f.length i).segment s.TxDesc =
      ⟨i = 0, i = bufcount f.length - 1, chunk ETH_TX_BUF_SIZE i f⟩ := by
  have hlong := bufcount_lt (Nat.pos_of_ne_zero hne)
  have hfull := le_bufcount f.length
  have hbefore : i * ETH_TX_BUF_SIZE ≤ (bufcount f.length - 1) * ETH_TX_BUF_SIZE :=
    Nat.mul_le_mul_right _ (by omega)
  have hpiece := hlies 0 (by rw [List.length_drop]; omega)
  rw [chunk_drop, Nat.add_zero, Nat.add_zero, Nat.mod_eq_of_lt hlt] at hpiece
  have hmask : ∀ n ≤ ETH_TX_BUF_SIZE, n &&& ETH_DMATXDESC_TBS1 = n := by
    intro n hn
    rw [ETH_DMATXDESC_TBS1, show 0x1FFF = 2 ^ 13 - 1 from rfl, Nat.and_two_pow_sub_one_eq_mod]
    exact Nat.mod_eq_of_lt (by rw [ETH_TX_BUF_SIZE] at hn; omega)
  have hsize : (setUp f.length i).ControlBufferSize = (chunk ETH_TX_BUF_SIZE i f).length := by
    rw [length_chunk, setUp]
    split
    · next hone =>
        rw [hone, Nat.one_mul] at hfull
        rw [hmask _ hfull, show i = 0 by omega, Nat.zero_mul, Nat.sub_zero, Nat.min_eq_right hfull]
    · dsimp only
      split
      · next hlast =>
          have hrest : f.length - (bufcount f.length - 1) * ETH_TX_BUF_SIZE ≤ ETH_TX_BUF_SIZE := by
            have hsucc : bufcount f.length = bufcount f.length - 1 + 1 := by omega
            rw [hsucc, Nat.succ_mul] at hfull
            omega
          rw [hmask _ hrest, hlast, Nat.min_eq_right hrest]
      · next hlast =>
          have hmore : (i + 1) * ETH_TX_BUF_SIZE ≤ (bufcount f.length - 1) * ETH_TX_BUF_SIZE :=
            Nat.mul_le_mul_right _ (by omega)
          rw [Nat.succ_mul] at hmore
          rw [hmask _ (Nat.le_refl _), Nat.min_eq_left (by omega)]
  have hflags : (setUp f.length i).FS = decide (i = 0) ∧
      (setUp f.length i).LS = decide (i = bufcount f.length - 1) := by
    rw [setUp]
    split
    · next hone => exact ⟨(decide_eq_true (by omega)).symm, (decide_eq_true (by omega)).symm⟩
    · exact ⟨rfl, rfl⟩
  have hdesc : (s.handOver f.length i).DMATxDscrTab s.TxDesc = setUp f.length i :=
    Function.update_self ..
  rw [segment, hdesc, hflags.1, hflags.2, hsize]
  exact congrArg _ hpiece

/-- A descriptor is handed over. -/
theorem inv_hand (hbooks : Books os s c) {p : Chain} {framelength i : Nat}
    (hpc : s.pc = .hand p framelength i) (hat : AtPc s c (.hand p framelength i))
    (hk : s.driver = some s') : Inv os s' := by
  obtain ⟨rfl, hne, hi, hfree, hlies⟩ := hat
  obtain ⟨gs, hread, hgs⟩ := hbooks.read
  have hlt : s.TxDesc < ETH_TXBUFNB := hbooks.at_end ▸ Nat.mod_lt _ (by decide)
  simp only [driver, hpc] at hk
  obtain rfl := Option.some.inj hk
  generalize hnext : (if i + 1 = bufcount p.flatten.length then TxPc.poll p
    else .hand p p.flatten.length (i + 1)) = pc
  have hhanding : handing pc = (segments p.flatten).take (i + 1) := by
    rw [← hnext]
    split
    · next hlast =>
        rw [List.take_of_length_le (by simp [segments, hlast])]
        rfl
    · rfl
  have hget : (segments p.flatten)[i]? =
      some ⟨i = 0, i = bufcount p.flatten.length - 1, chunk ETH_TX_BUF_SIZE i p.flatten⟩ := by
    rw [segments, List.getElem?_map, List.getElem?_range hi, Option.map_some]
  have hown : Tx.own (s.handOver p.flatten.length i) =
      Function.update s.own ((s.dma + c) % ETH_TXBUFNB) true := by
    rw [← hbooks.at_end]
    exact (own_update s s.TxDesc _).trans (by rw [own_setUp])
  have hseg : (s.handOver p.flatten.length i).segment =
      Function.update s.segment ((s.dma + c) % ETH_TXBUFNB)
        ⟨i = 0, i = bufcount p.flatten.length - 1, chunk ETH_TX_BUF_SIZE i p.flatten⟩ := by
    rw [← hbooks.at_end]
    funext k
    by_cases hk : k = s.TxDesc
    · rw [hk, Function.update_self]
      exact segment_handOver hne hi hlies hlt
    · rw [Function.update_of_ne hk]
      simp only [segment, handOver, Function.update_of_ne hk]
  have hbooks' : Books os { s.handOver p.flatten.length i with pc := pc } (c + 1) := by
    refine ⟨(hbooks.marked.give (by omega)).congr hown, ?_, gs, hread, ?_⟩
    · show Ring.next ETH_TXBUFNB s.TxDesc = _
      rw [hbooks.at_end]
      exact next_index s.dma c
    · show gs ++ Ring.contents (s.handOver p.flatten.length i).segment ETH_TXBUFNB s.dma (c + 1) =
        (accepted os).flatMap segments ++ handing pc
      rw [hseg, Ring.contents_put s.segment (by omega), ← List.append_assoc, hgs, hpc, hhanding,
        List.take_add_one, hget, Option.toList_some, List.append_assoc]
      rfl
  refine ⟨c + 1, hbooks', ?_, fun _ => .inr ?_⟩
  · show AtPc _ (c + 1) pc
    rw [← hnext]
    split
    · exact List.ne_nil_of_length_pos (Nat.pos_of_ne_zero hne)
    · exact ⟨rfl, hne, by omega, by omega, hlies.next⟩
  · show handing pc ≠ []
    rw [hhanding, List.take_add_one, hget]
    simp

/-- A step in which the driver only goes on, seen from a pc that has handed nothing over. -/
theorem inv_goOn (hbooks : Books os s c) (htbus : s.TBUS = true → c = 0) {pc : TxPc}
    {o : List (Chain × Err)} (ho : accepted o = []) (hpc : handing pc = handing s.pc)
    (hat : AtPc s c pc) : Inv (os ++ o) { s with pc := pc } :=
  ⟨c, hbooks.goOn ho hpc, hat.mono (Nat.le_refl c) rfl rfl, fun ht => .inl (htbus ht)⟩

/-- **A step of the driver.** -/
theorem inv_driver (h : Inv os s) (hk : s.driver = some s') :
    Inv (os ++ s.returned .driver) s' := by
  obtain ⟨c, hbooks, hat, htbus⟩ := h
  have hidle : handing s.pc = [] → s.TBUS = true → c = 0 := fun hnil ht =>
    (htbus ht).resolve_right fun hne => hne hnil
  cases hpc : s.pc with
  | thread =>
      rw [driver, hpc] at hk
      cases hk
  | chain p q desc off framelength =>
      rw [hpc] at hat hidle
      obtain ⟨hfits, done, hp, hdone⟩ := hat
      cases q with
      | nil =>
          rw [List.flatten_nil, List.append_nil] at hp
          simp only [driver, hpc] at hk
          obtain rfl := Option.some.inj hk
          simp only [returned, hpc]
          refine inv_goOn hbooks (hidle rfl) rfl (by rw [hpc]; rfl) ?_
          rcases hdone with ⟨rfl, -, -, rfl⟩ | ⟨j, -, rfl, hlen, hoff, hfree, hlies⟩
          · exact ⟨by rw [hp]; rfl, fun hne => absurd rfl hne⟩
          · refine ⟨by rw [hp], fun hne => ⟨?_, hp ▸ hlies⟩⟩
            have hle : bufcount done.length ≤ j + 1 :=
              bufcount_le (Nat.pos_of_ne_zero hne) (by rw [hlen, Nat.succ_mul]; omega)
            omega
      | cons payload q =>
          simp only [driver, hpc] at hk
          simp only [returned, hpc]
          split at hk
          · next hown =>
              obtain rfl := Option.some.inj hk
              rw [if_pos hown]
              exact inv_goOn hbooks (hidle rfl) rfl (by rw [hpc]; rfl) trivial
          · next hown =>
              obtain rfl := Option.some.inj hk
              rw [if_neg hown]
              refine inv_goOn hbooks (hidle rfl) rfl (by rw [hpc]; rfl) ⟨hfits, done, hp, ?_⟩
              rcases hdone with ⟨rfl, rfl, rfl, rfl⟩ | hcopied
              · have hlt : s.TxDesc < ETH_TXBUFNB := hbooks.at_end ▸ Nat.mod_lt _ (by decide)
                have hself : (s.TxDesc + 0) % ETH_TXBUFNB = s.TxDesc := Nat.mod_eq_of_lt hlt
                have hfree : c + 0 < ETH_TXBUFNB :=
                  hbooks.free_of_own hbooks.marked.le (by decide) (by rwa [hself])
                exact ⟨0, hself.symm, rfl, by simp, Nat.zero_le _, hfree, .nil _ _ _⟩
              · exact hcopied
  | piece p payload q desc off framelength =>
      rw [hpc] at hat hidle
      simp only [returned, hpc, List.append_nil]
      exact inv_piece hbooks (hidle rfl) hpc hat hk
  | moved p payload q desc framelength =>
      rw [hpc] at hat hidle
      obtain ⟨hfits, hne, done, j, hp, rfl, rfl, hlen, hfree, hlies⟩ := hat
      simp only [driver, hpc] at hk
      simp only [returned, hpc]
      split at hk
      · next hown =>
          obtain rfl := Option.some.inj hk
          rw [if_pos hown]
          exact inv_goOn hbooks (hidle rfl) rfl (by rw [hpc]; rfl) trivial
      · next hown =>
          obtain rfl := Option.some.inj hk
          rw [if_neg hown]
          -- the frame fits, so the driver has not come round to its first descriptor
          have hlt : j < ETH_TXBUFNB := by
            have hpos := List.length_pos_of_ne_nil hne
            rw [Fits, hp, List.length_append, List.length_append, hlen] at hfits
            have hlong : j * ETH_TX_BUF_SIZE < ETH_TXBUFNB * ETH_TX_BUF_SIZE := by omega
            exact Nat.lt_of_mul_lt_mul_right hlong
          exact inv_goOn hbooks (hidle rfl) rfl (by rw [hpc]; rfl) ⟨hfits, done, hp, j, rfl, rfl,
            hlen.trans (Nat.add_zero _).symm, Nat.zero_le _, hbooks.free_of_own hfree hlt hown,
            hlies⟩
  | transmit p framelength =>
      rw [hpc] at hat hidle
      obtain ⟨rfl, hready⟩ := hat
      simp only [driver, hpc] at hk
      simp only [returned, hpc]
      split at hk
      · next hzero =>
          obtain rfl := Option.some.inj hk
          rw [if_pos (.inl hzero)]
          exact inv_goOn hbooks (hidle rfl)
            (accepted_of_nil _ (List.eq_nil_of_length_eq_zero hzero)) (by rw [hpc]; rfl) trivial
      · next hne =>
          obtain ⟨hfree, hlies⟩ := hready hne
          have hpos := bufcount_pos p.flatten.length
          have hown : ¬ s.own s.TxDesc = true := by
            rw [hbooks.at_end, hbooks.marked.own_in]
            omega
          rw [if_neg hown] at hk
          obtain rfl := Option.some.inj hk
          rw [if_neg (not_or.mpr ⟨hne, hown⟩)]
          refine inv_goOn hbooks (hidle rfl) rfl (by rw [hpc]; rfl) ⟨rfl, hne, hpos, by omega, ?_⟩
          rwa [Nat.zero_mul, List.drop_zero]
  | hand p framelength i =>
      rw [hpc] at hat
      simp only [returned, hpc, List.append_nil]
      exact inv_hand hbooks hpc hat hk
  | poll p =>
      rw [hpc] at hat
      simp only [driver, hpc] at hk
      obtain rfl := Option.some.inj hk
      obtain ⟨gs, hread, hgs⟩ := hbooks.read
      simp only [returned, hpc]
      refine ⟨c, ⟨hbooks.marked, hbooks.at_end, gs, hread, ?_⟩, trivial, fun ht => ?_⟩
      · rw [accepted_append, accepted_ok hat, List.flatMap_append, List.flatMap_singleton]
        show gs ++ Ring.contents s.segment ETH_TXBUFNB s.dma c = _ ++ []
        rw [hgs, hpc, List.append_nil]
        rfl
      · cases ht

end Steps

/-! ## Runs -/

end Tx

/-- A call is made with a chain that fits. -/
def TxEvent.Fits : TxEvent → Prop
  | .low_level_output p => Tx.Fits p
  | .driver | .dma => True

instance decidableFits : (ev : TxEvent) → Decidable ev.Fits
  | .low_level_output _ => inferInstanceAs (Decidable (_ ≤ _))
  | .driver | .dma => .isTrue trivial

namespace Tx

theorem inv_step {os : List (Chain × Err)} {s s' : Tx} {ev : TxEvent} (h : Inv os s)
    (hfits : ev.Fits) (hk : s.step ev = some s') : Inv (os ++ s.returned ev) s' := by
  cases ev with
  | low_level_output p =>
      obtain ⟨hpc, hk⟩ := Option.ite_none_right_eq_some.mp hk
      obtain rfl := Option.some.inj hk
      obtain ⟨c, hbooks, -, htbus⟩ := h
      exact inv_goOn hbooks (fun ht => (htbus ht).resolve_right fun hne => hne (by rw [hpc]; rfl))
        rfl (by rw [hpc]; rfl) ⟨hfits, [], rfl, .inl ⟨rfl, rfl, rfl, rfl⟩⟩
  | driver => exact inv_driver h hk
  | dma =>
      rw [step] at hk
      split at hk
      · cases hk
      · obtain rfl := Option.some.inj hk
        show Inv (os ++ []) s.transmitDma
        rw [List.append_nil]
        exact inv_dma h

theorem inv_boot (bufs : Nat → Buf UInt8 ETH_TX_BUF_SIZE) : Inv [] (boot bufs) := by
  refine ⟨0, ⟨⟨Nat.succ_pos 4, Nat.zero_le _, fun k _ => ?_⟩, rfl, [], rfl, rfl⟩, trivial,
    fun h => ?_⟩
  · simp [own, boot]
  · cases h

/-- The calls that have returned along a run. -/
def story (bufs : Nat → Buf UInt8 ETH_TX_BUF_SIZE) (evs : List TxEvent) : List (Chain × Err) :=
  trace step returned (boot bufs) evs

/-- The frame of a call that has begun to hand it over. -/
def inHand : TxPc → List (List UInt8)
  | .hand p _ _ | .poll p => [p.flatten]
  | _ => []

theorem inv_of_run {bufs : Nat → Buf UInt8 ETH_TX_BUF_SIZE} {evs : List TxEvent} {s : Tx}
    (hrun : run step (boot bufs) evs = some s) (hfits : ∀ ev ∈ evs, ev.Fits) :
    Inv (story bufs evs) s :=
  have hby : RunBy step (fun _ ev => ev.Fits) (boot bufs) evs s :=
    ⟨hrun, (steps_iff_forall_mem hrun).mpr hfits⟩
  (hby.ledger (I := fun _ => True) (L := fun s os => Inv os s)
    (fun _ _ _ _ _ hL hQ hk => ⟨trivial, inv_step hL hQ hk⟩) trivial (inv_boot bufs)).2

/-- A call with one chain, to its end. -/
def send (p : Chain) : List TxEvent :=
  .low_level_output p :: List.replicate (2 * p.length + 4) .driver

/-- Buffers of zeros. -/
def zeros (_ : Nat) : Buf UInt8 ETH_TX_BUF_SIZE := .fill _ 0

/-- Two frames are sent, and the DMA has read the first. -/
def two : List TxEvent := send [[1, 2, 3], [4]] ++ send [[5]] ++ [.dma]

/-- Five frames are sent, the DMA reads none of them, and a sixth comes. -/
def six : List TxEvent := (List.replicate 5 (send [[1]])).flatten ++ [.low_level_output [[6]]]

/-- The state behind events that can happen. -/
def behind (evs : List TxEvent) : Tx := (run step (boot zeros) evs).getD (boot zeros)

theorem run_behind {evs : List TxEvent} (h : (run step (boot zeros) evs).isSome = true) :
    run step (boot zeros) evs = some (behind evs) := by
  rw [behind, Option.getD_of_ne_none (Option.isSome_iff_ne_none.mp h)]

/-- A DMA without descriptors has sent everything. -/
theorem Books.wire_eq {os : List (Chain × Err)} {s : Tx} (h : Books os s 0)
    (hpc : s.pc = .thread) : s.wire = accepted os := by
  obtain ⟨gs, hread, hgs⟩ := h.read
  rw [hpc] at hgs
  have hgs' : gs = (accepted os).flatMap segments := by
    simpa [Ring.contents, handing] using hgs
  rw [hgs', foldl_read_flatMap, List.nil_append] at hread
  exact (congrArg Prod.snd hread).symm

/-- **What is on the wire.**  In every run, whatever the DMA does between the accesses of the
driver: the frames sent are those of the calls that returned `ERR_OK` (and the one whose call has
begun to hand it over), in the order of the calls, every byte of each and no others; and once the
DMA has given all descriptors back, none of them is missing. -/
theorem run_sent {bufs : Nat → Buf UInt8 ETH_TX_BUF_SIZE} {evs : List TxEvent} {s : Tx}
    (hrun : run step (boot bufs) evs = some s) (hfits : ∀ ev ∈ evs, ev.Fits) :
    s.wire <+: accepted (story bufs evs) ++ inHand s.pc ∧
      (s.pc = .thread → (∀ i < ETH_TXBUFNB, s.own i = false) →
        s.wire = accepted (story bufs evs)) := by
  obtain ⟨c, hbooks, -, -⟩ := inv_of_run hrun hfits
  obtain ⟨gs, hread, hgs⟩ := hbooks.read
  have hall : s.wire <+: ((gs ++ Ring.contents s.segment ETH_TXBUFNB s.dma c).foldl Segment.read
      ([], [])).2 := by
    rw [List.foldl_append, hread]
    exact prefix_foldl_read (Ring.contents s.segment ETH_TXBUFNB s.dma c) (s.frame, s.wire)
  rw [hgs, List.foldl_append, foldl_read_flatMap, List.nil_append] at hall
  refine ⟨?_, fun hpc hfree => ?_⟩
  · cases hpc : s.pc with
    | hand p framelength i =>
        rw [hpc] at hall
        refine hall.trans ?_
        have hrest : (segments p.flatten) =
            (segments p.flatten).take i ++ (segments p.flatten).drop i :=
          (List.take_append_drop _ _).symm
        have hsent := foldl_read_segments p.flatten ([], accepted (story bufs evs))
        rw [hrest, List.foldl_append] at hsent
        have hpre := prefix_foldl_read ((segments p.flatten).drop i)
          (((segments p.flatten).take i).foldl Segment.read ([], accepted (story bufs evs)))
        rwa [hsent] at hpre
    | poll p =>
        rw [hpc] at hall
        rwa [handing, foldl_read_segments] at hall
    | _ =>
        rw [hpc] at hall
        exact hall.trans (List.prefix_append _ _)
  · have hc : c = 0 := by
      have hout := hbooks.marked.own_out
      rw [hfree _ hbooks.marked.out_lt] at hout
      simpa using hout
    exact (hc ▸ hbooks).wire_eq hpc

theorem run_sent_two :
    (behind two).wire <+: accepted (story zeros two) ++ inHand (behind two).pc ∧
      ((behind two).pc = .thread → (∀ i < ETH_TXBUFNB, (behind two).own i = false) →
        (behind two).wire = accepted (story zeros two)) :=
  run_sent (run_behind (by decide +kernel)) (by decide)

example : (behind two).wire = [[1, 2, 3, 4]] := by decide +kernel

/-- A DMA with descriptors of its own gives one back at each step, and then stops. -/
theorem exists_stopped {os : List (Chain × Err)} {s : Tx} {c : Nat} (hbooks : Books os s c)
    (htbus : s.TBUS = false) :
    ∃ s', run step s (List.replicate (c + 1) .dma) = some s' ∧ s'.TBUS = true ∧
      s'.pc = s.pc ∧ Books os s' 0 := by
  have hstep : s.step .dma = some s.transmitDma := by
    rw [step, htbus]
    rfl
  induction c generalizing s with
  | zero =>
      have hown : ¬ s.own s.dma = true := mt hbooks.marked.own_out.mp (Nat.lt_irrefl 0)
      refine ⟨{ s with TBUS := true }, ?_, rfl, rfl, hbooks.stop⟩
      rw [List.replicate, run_cons, hstep, transmitDma, if_neg hown]
      rfl
  | succ c ih =>
      have hown : s.own s.dma = true := hbooks.marked.own_out.mpr (Nat.succ_pos c)
      have htbus' : s.transmitDma.TBUS = false := by
        rw [transmitDma, if_pos hown]
        exact htbus
      obtain ⟨s', hrun, hstop, hpc, hbooks'⟩ := ih hbooks.dma htbus' (by rw [step, htbus']; rfl)
      refine ⟨s', ?_, hstop, hpc.trans (pc_transmitDma s), hbooks'⟩
      rw [List.replicate, run_cons, hstep]
      exact hrun

/-- **The DMA never stops too early.**  Between calls, a DMA that is suspended has sent every
accepted frame, so no demand to go on is lost; and one that is not sends what is left within six
steps and is suspended then. -/
theorem run_stops {bufs : Nat → Buf UInt8 ETH_TX_BUF_SIZE} {evs : List TxEvent} {s : Tx}
    (hrun : run step (boot bufs) evs = some s) (hfits : ∀ ev ∈ evs, ev.Fits)
    (hpc : s.pc = .thread) :
    (s.TBUS = true → s.wire = accepted (story bufs evs)) ∧
      ∃ n ≤ ETH_TXBUFNB + 1, ∃ s', run step s (List.replicate n .dma) = some s' ∧
        s'.TBUS = true ∧ s'.wire = accepted (story bufs evs) := by
  obtain ⟨c, hbooks, -, hzero⟩ := inv_of_run hrun hfits
  have hsent : s.TBUS = true → s.wire = accepted (story bufs evs) := by
    intro htbus
    have hc : c = 0 := (hzero htbus).resolve_right fun hne => hne (by rw [hpc]; rfl)
    exact (hc ▸ hbooks).wire_eq hpc
  refine ⟨hsent, ?_⟩
  cases htbus : s.TBUS with
  | true => exact ⟨0, Nat.zero_le _, s, rfl, htbus, hsent htbus⟩
  | false =>
      obtain ⟨s', hrun', hstop, hpc', hbooks'⟩ := exists_stopped hbooks htbus
      exact ⟨c + 1, Nat.succ_le_succ hbooks.marked.le, s', hrun', hstop,
        hbooks'.wire_eq (hpc'.trans hpc)⟩

theorem run_stops_two :
    ((behind two).TBUS = true → (behind two).wire = accepted (story zeros two)) ∧
      ∃ n ≤ ETH_TXBUFNB + 1, ∃ s', run step (behind two) (List.replicate n .dma) = some s' ∧
        s'.TBUS = true ∧ s'.wire = accepted (story zeros two) :=
  run_stops (run_behind (by decide +kernel)) (by decide) (by decide +kernel)

/-! ## Refusals -/

/-- How far the driver has come in the circle with its frame, however long that is. -/
def AtDesc (s : Tx) : TxPc → Prop
  | .chain p q desc off _ => ∃ done j, p.flatten = done ++ q.flatten ∧
      desc = (s.TxDesc + j) % ETH_TXBUFNB ∧ done.length = j * ETH_TX_BUF_SIZE + off ∧
      off ≤ ETH_TX_BUF_SIZE ∧ (j = 0 ∨ 0 < off)
  | .piece p payload q desc off _ => ∃ done j, p.flatten = done ++ (payload ++ q.flatten) ∧
      desc = (s.TxDesc + j) % ETH_TXBUFNB ∧ done.length = j * ETH_TX_BUF_SIZE + off ∧
      off ≤ ETH_TX_BUF_SIZE ∧ (j = 0 ∨ 0 < off ∨ payload ≠ [])
  | .moved p payload q desc _ => ∃ done j, p.flatten = done ++ (payload ++ q.flatten) ∧
      desc = (s.TxDesc + j) % ETH_TXBUFNB ∧ done.length = j * ETH_TX_BUF_SIZE ∧ payload ≠ []
  | _ => True

theorem atDesc_driver {s s' : Tx} (hlt : s.TxDesc < ETH_TXBUFNB) (hat : AtDesc s s.pc)
    (hk : s.driver = some s') : s'.TxDesc < ETH_TXBUFNB ∧ AtDesc s' s'.pc := by
  cases hpc : s.pc with
  | thread =>
      rw [driver, hpc] at hk
      cases hk
  | chain p q desc off framelength =>
      rw [hpc] at hat
      cases q with
      | nil =>
          simp only [driver, hpc] at hk
          obtain rfl := Option.some.inj hk
          exact ⟨hlt, trivial⟩
      | cons payload q =>
          simp only [driver, hpc] at hk
          split at hk
          · obtain rfl := Option.some.inj hk
            exact ⟨hlt, trivial⟩
          · obtain rfl := Option.some.inj hk
            obtain ⟨done, j, hp, hdesc, hlen, hoff, hor⟩ := hat
            exact ⟨hlt, done, j, hp, hdesc, hlen, hoff, hor.imp id Or.inl⟩
  | piece p payload q desc off framelength =>
      rw [hpc] at hat
      obtain ⟨done, j, hp, rfl, hlen, hoff, hor⟩ := hat
      simp only [driver, hpc] at hk
      split at hk
      · obtain rfl := Option.some.inj hk
        have htake : (payload.take (ETH_TX_BUF_SIZE - off)).length = ETH_TX_BUF_SIZE - off := by
          rw [List.length_take]
          omega
        refine ⟨hlt, done ++ payload.take (ETH_TX_BUF_SIZE - off), j + 1, ?_, next_index .., ?_, ?_⟩
        · rw [hp, List.append_assoc, ← List.append_assoc (payload.take _), List.take_append_drop]
        · rw [List.length_append, htake, hlen, Nat.succ_mul]
          omega
        · exact List.ne_nil_of_length_pos (by rw [List.length_drop]; omega)
      · obtain rfl := Option.some.inj hk
        refine ⟨hlt, done ++ payload, j, ?_, rfl, ?_, by omega, ?_⟩
        · rw [hp, List.append_assoc]
        · rw [List.length_append, hlen, Nat.add_assoc]
        · refine hor.imp id fun hsome => ?_
          rcases hsome with hpos | hne
          · omega
          · have := List.length_pos_of_ne_nil hne
            omega
  | moved p payload q desc framelength =>
      rw [hpc] at hat
      simp only [driver, hpc] at hk
      split at hk
      · obtain rfl := Option.some.inj hk
        exact ⟨hlt, trivial⟩
      · obtain rfl := Option.some.inj hk
        obtain ⟨done, j, hp, hdesc, hlen, hne⟩ := hat
        exact ⟨hlt, done, j, hp, hdesc, hlen.trans (Nat.add_zero _).symm, Nat.zero_le _,
          Or.inr (Or.inr hne)⟩
  | transmit p framelength =>
      simp only [driver, hpc] at hk
      split at hk
      · obtain rfl := Option.some.inj hk
        exact ⟨hlt, trivial⟩
      · split at hk <;> obtain rfl := Option.some.inj hk <;> exact ⟨hlt, trivial⟩
  | hand p framelength i =>
      simp only [driver, hpc] at hk
      obtain rfl := Option.some.inj hk
      refine ⟨Ring.next_lt hlt, ?_⟩
      show AtDesc _ (if _ then _ else _)
      split <;> trivial
  | poll p =>
      simp only [driver, hpc] at hk
      obtain rfl := Option.some.inj hk
      exact ⟨hlt, trivial⟩

theorem atDesc_step (s : Tx) (ev : TxEvent) (s' : Tx)
    (h : s.TxDesc < ETH_TXBUFNB ∧ AtDesc s s.pc) (hk : s.step ev = some s') :
    s'.TxDesc < ETH_TXBUFNB ∧ AtDesc s' s'.pc := by
  obtain ⟨hlt, hat⟩ := h
  cases ev with
  | low_level_output p =>
      obtain ⟨-, hk⟩ := Option.ite_none_right_eq_some.mp hk
      obtain rfl := Option.some.inj hk
      exact ⟨hlt, [], 0, rfl, (Nat.mod_eq_of_lt hlt).symm, (Nat.zero_mul _).symm, Nat.zero_le _,
        Or.inl rfl⟩
  | driver => exact atDesc_driver hlt hat hk
  | dma =>
      rw [step] at hk
      split at hk
      · cases hk
      · obtain rfl := Option.some.inj hk
        have hdesc : s.transmitDma.TxDesc = s.TxDesc := by
          rw [transmitDma]
          split <;> rfl
        rw [pc_transmitDma, hdesc]
        refine ⟨hlt, ?_⟩
        unfold AtDesc at hat ⊢
        rwa [hdesc]

/-- A descriptor in which bytes of a frame go is one that the frame needs. -/
theorem lt_bufcount {n j : Nat} (h : j = 0 ∨ j * ETH_TX_BUF_SIZE < n) : j < bufcount n := by
  rcases h with rfl | hlt
  · exact bufcount_pos n
  · exact Nat.lt_of_mul_lt_mul_right (Nat.lt_of_lt_of_le hlt (le_bufcount n))

/-- **A refusal has a reason.**  In every run, a call returns `ERR_USE` only while a descriptor
that its frame needs is still the DMA's. -/
theorem run_refused {bufs : Nat → Buf UInt8 ETH_TX_BUF_SIZE} {evs : List TxEvent} {s : Tx}
    (hrun : run step (boot bufs) evs = some s) {p : Chain} {ev : TxEvent}
    (hret : (p, Err.ERR_USE) ∈ s.returned ev) :
    ∃ j < bufcount p.flatten.length, s.own ((s.TxDesc + j) % ETH_TXBUFNB) = true := by
  have hboot : (boot bufs).TxDesc < ETH_TXBUFNB ∧ AtDesc (boot bufs) (boot bufs).pc :=
    ⟨Nat.succ_pos 4, trivial⟩
  have hat := (run_invariant atDesc_step hboot hrun).2
  cases ev with
  | low_level_output p' => cases hret
  | dma => cases hret
  | driver =>
      cases hpc : s.pc with
      | thread => simp [returned, hpc] at hret
      | chain p' q desc off framelength =>
          rw [hpc] at hat
          obtain ⟨done, j, hp, rfl, hlen, -, hor⟩ := hat
          cases q with
          | nil => simp [returned, hpc] at hret
          | cons payload q =>
              simp only [returned, hpc] at hret
              split at hret
              · next hown =>
                  obtain ⟨rfl, -⟩ := Prod.mk.inj (List.mem_singleton.mp hret)
                  refine ⟨j, lt_bufcount (hor.imp id fun hpos => ?_), hown⟩
                  rw [hp, List.length_append, hlen]
                  omega
              · cases hret
      | piece p' payload q desc off framelength => simp [returned, hpc] at hret
      | moved p' payload q desc framelength =>
          rw [hpc] at hat
          obtain ⟨done, j, hp, rfl, hlen, hne⟩ := hat
          simp only [returned, hpc] at hret
          split at hret
          · next hown =>
              obtain ⟨rfl, -⟩ := Prod.mk.inj (List.mem_singleton.mp hret)
              refine ⟨j, lt_bufcount (Or.inr ?_), hown⟩
              have hpos := List.length_pos_of_ne_nil hne
              rw [hp, List.length_append, List.length_append, hlen]
              omega
          · cases hret
      | transmit p' framelength =>
          simp only [returned, hpc] at hret
          split at hret
          · cases (Prod.mk.inj (List.mem_singleton.mp hret)).2
          · cases hret
      | hand p' framelength i => simp [returned, hpc] at hret
      | poll p' =>
          simp only [returned, hpc] at hret
          cases (Prod.mk.inj (List.mem_singleton.mp hret)).2

theorem run_refused_six :
    ∃ j < bufcount [[6]].flatten.length,
      (behind six).own (((behind six).TxDesc + j) % ETH_TXBUFNB) = true :=
  run_refused (run_behind (by decide +kernel))
    (show ([[6]], Err.ERR_USE) ∈ (behind six).returned .driver by decide +kernel)

end Tx

end NetCamera.Eth
