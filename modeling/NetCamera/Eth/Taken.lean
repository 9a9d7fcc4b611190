import NetCamera.Eth.Receive

/-!
# NetCamera.Eth.Taken

What the driver takes from the circle: the frames the DMA stored, in order and byte by byte, up to
the first that is erroneous or does not fit into one buffer (`run_taken`).  With that one,
reception has ended (`run_ends`).

The test of `ETH_IRQHandler` lets only whole frames pass, so `HAL_ETH_GetReceivedFrame` never sees
the first part of a longer one, never goes on to its other parts, and the descriptor stays where
it is.  The interrupt flag is cleared after the last test; a frame that ends in between waits for
the next one (`run_caught_up`).
-/

namespace NetCamera.Eth

open Run Chunks

/-- A frame that can be taken: not erroneous, and in one buffer. -/
def usable (x : List UInt8 × Bool) : Bool := !x.2 && x.1.length ≤ ETH_RX_BUF_SIZE

/-- What became of a frame that was taken: where there was a pbuf, it holds the frame without the
CRC. -/
def Took (x : List UInt8 × Bool) (p : Option Chain) : Prop :=
  ∀ c, p = some c → c.flatten = x.1.take (x.1.length - 4)

/-- The same with the number of pbufs that were left in the pool: there is no pbuf for the frame
exactly if `pbuf_alloc` fails with that many. -/
def TookBy (x : (List UInt8 × Bool) × Nat) (p : Option Chain) : Prop :=
  (p = none ↔ pbuf_alloc (x.1.1.length - 4) x.2 = none) ∧ Took x.1 p

/-! ## Copying -/

theorem sum_tailLens {fuel rem_len : Nat} (h : rem_len ≤ fuel) :
    (tailLens fuel rem_len).sum = rem_len := by
  induction fuel generalizing rem_len with
  | zero => rw [Nat.le_zero.mp h]; rfl
  | succ fuel ih =>
      rw [tailLens]
      split
      · have hpool : PBUF_POOL_BUFSIZE = 512 := rfl
        rw [List.sum_cons, ih (by omega)]
        omega
      · rw [List.sum_nil]
        omega

/-- A chain of the pool has the length asked for. -/
theorem sum_pbuf_alloc {length free : Nat} {lens : List Nat}
    (h : pbuf_alloc length free = some lens) : lens.sum = length := by
  rw [pbuf_alloc] at h
  obtain ⟨-, h⟩ := Option.ite_none_right_eq_some.mp h
  obtain rfl := Option.some.inj h
  rw [List.sum_cons, sum_tailLens (Nat.sub_le _ _)]
  omega

/-- Copying a frame that lies in one buffer. -/
theorem flatten_readChain (bufs : Nat → Buf UInt8 ETH_RX_BUF_SIZE) {lens : List Nat}
    {dmarxdesc off : Nat} (h : off + lens.sum ≤ ETH_RX_BUF_SIZE) :
    (readChain bufs lens dmarxdesc off).flatten = (bufs dmarxdesc).slice off lens.sum := by
  induction lens generalizing off with
  | nil => exact List.take_zero.symm
  | cons len lens ih =>
      rw [List.sum_cons] at h ⊢
      have hone : readPbuf bufs (len + off + 1) dmarxdesc off len =
          ((bufs dmarxdesc).slice off len, dmarxdesc, off + len) := by
        rw [readPbuf, if_neg (by omega)]
      have hrest := ih (show off + len + lens.sum ≤ ETH_RX_BUF_SIZE by omega)
      rw [readChain, hone, List.flatten_cons, hrest, Buf.slice_add]

namespace Rx

/-- What the driver finds in a descriptor and its buffer. -/
def cell (s : Rx) (i : Nat) : RxDescriptor × List UInt8 :=
  (s.DMARxDscrTab i, (s.Rx_Buff i).slice 0 (s.DMARxDscrTab i).FL)

/-- A whole frame in one buffer. -/
def whole (f : List UInt8) : RxDescriptor × List UInt8 := (⟨false, false, true, true, f.length⟩, f)

/-- A cell at which `ETH_IRQHandler` stops. -/
def Stops (g : RxDescriptor × List UInt8) : Prop := g.1.ES = true ∨ g.1.LS = false

/-- The circle from descriptor `cpu` on, `c` descriptors of which are the driver's: of the frames
stored, `taken` have been taken, `u` can be, and the next one stops the driver. -/
structure Books (os : List RxSeen) (s : Rx) (cpu c : Nat) (taken u : List (List UInt8)) : Prop where
  marked : Ring.Marked (fun i => !(s.DMARxDscrTab i).OWN) ETH_RXBUFNB cpu c
  at_end : s.dma = (cpu + c) % ETH_RXBUFNB
  long : ∀ x ∈ s.incoming, 64 ≤ x.frame.length
  fits : ∀ f ∈ taken ++ u, 64 ≤ f.length ∧ f.length ≤ ETH_RX_BUF_SIZE
  flow : ∃ tail cells, storedFrames os = (taken ++ u).map (·, false) ++ tail ∧
    Ring.contents s.cell ETH_RXBUFNB cpu c = u.map whole ++ cells ∧ tail.length ≤ cells.length ∧
    ((tail = [] ∧ cells = [] ∧ ∀ x ∈ s.incoming, x.i = 0) ∨
      ∃ b tail' g cells', tail = b :: tail' ∧ usable b = false ∧ cells = g :: cells' ∧ Stops g)

/-- The frame in the hands of the interrupt routine, once it is copied. -/
def inHand : RxPc → List (Option Chain)
  | .release p _ _ => [p]
  | .rbus p => [p]
  | .give p => [p]
  | _ => []

/-- A frame that is copied, while its descriptor is not given back. -/
def copiedOf (u : List (List UInt8)) : RxPc → List (List UInt8)
  | .release _ _ 0 => u.take 1
  | _ => []

/-- What holds where the interrupt routine is. -/
def AtPc (s : Rx) (cpu : Nat) (u : List (List UInt8)) : RxPc → Prop
  | .thread | .test | .clear | .rbus _ | .give _ =>
      s.RxDesc = cpu ∧ s.RxFrameInfos.SegCount = 0
  | .input => s.RxDesc = cpu ∧ s.RxFrameInfos.SegCount = 0 ∧ u ≠ []
  | .copy => ∃ f u', u = f :: u' ∧ s.RxDesc = Ring.next ETH_RXBUFNB cpu ∧
      s.RxFrameInfos = ⟨cpu, 1, UInt32.ofNat f.length - 4⟩
  | .release _ dmarxdesc i => s.RxFrameInfos.SegCount = 1 ∧
      ((i = 0 ∧ dmarxdesc = cpu ∧ s.RxDesc = Ring.next ETH_RXBUFNB cpu ∧ ∃ f u', u = f :: u') ∨
        (i = 1 ∧ s.RxDesc = cpu))

/-- The frames copied, each with what the pool had left for it, and what became of them. -/
structure Copies (os : List RxSeen) (pc : RxPc) (taken u : List (List UInt8))
    (copies : List ((List UInt8 × Bool) × Nat)) : Prop where
  frames : copies.map Prod.fst = (taken ++ copiedOf u pc).map (·, false)
  found : copies.map Prod.snd = foundFree os
  took : List.Forall₂ TookBy copies (handledFrames os ++ inHand pc)

def Inv (os : List RxSeen) (s : Rx) : Prop :=
  ∃ cpu c taken u copies, Books os s cpu c taken u ∧ AtPc s cpu u s.pc ∧
    Copies os s.pc taken u copies

section Steps

variable {os : List RxSeen} {s s' : Rx} {cpu c : Nat} {taken u : List (List UInt8)}

theorem storedFrames_append (os os' : List RxSeen) :
    storedFrames (os ++ os') = storedFrames os ++ storedFrames os' := List.filterMap_append ..

theorem foundFree_append (os os' : List RxSeen) :
    foundFree (os ++ os') = foundFree os ++ foundFree os' := List.filterMap_append ..

theorem handledFrames_append (os os' : List RxSeen) :
    handledFrames (os ++ os') = handledFrames os ++ handledFrames os' := List.filterMap_append ..

/-- A step that copies no frame. -/
theorem Copies.keep {os' : List RxSeen} {pc pc' : RxPc} {taken' u' : List (List UInt8)}
    {copies : List ((List UInt8 × Bool) × Nat)} (h : Copies os pc taken u copies)
    (hframes : taken' ++ copiedOf u' pc' = taken ++ copiedOf u pc)
    (hfound : foundFree os' = foundFree os)
    (hhanded : handledFrames os' ++ inHand pc' = handledFrames os ++ inHand pc) :
    Copies os' pc' taken' u' copies :=
  ⟨by rw [hframes]; exact h.frames, by rw [hfound]; exact h.found, by rw [hhanded]; exact h.took⟩

/-! ## The DMA -/

theorem own_update (s : Rx) (i : Nat) (d : RxDescriptor) :
    (fun j => !(Function.update s.DMARxDscrTab i d j).OWN) =
      Function.update (fun j => !(s.DMARxDscrTab j).OWN) i (!d.OWN) := by
  funext j
  by_cases hj : j = i
  · rw [hj, Function.update_self, Function.update_self]
  · rw [Function.update_of_ne hj, Function.update_of_ne hj]

/-- A frame of one piece is that piece. -/
theorem lastPiece_eq_zero {f : List UInt8} (h : lastPiece f = 0) : f.length ≤ ETH_RX_BUF_SIZE := by
  rw [lastPiece, Nat.div_eq_zero_iff] at h
  have hsize : ETH_RX_BUF_SIZE = 1524 := rfl
  omega

theorem lastPiece_of_le {f : List UInt8} (h : f.length ≤ ETH_RX_BUF_SIZE) (hpos : 0 < f.length) :
    lastPiece f = 0 := by
  rw [lastPiece, Nat.div_eq_zero_iff]
  omega

/-- The cell that the DMA has just filled. -/
theorem cell_receiveDma {x : Incoming} (hown : (s.DMARxDscrTab s.dma).OWN = true) :
    (s.receiveDma x).cell =
      Function.update s.cell s.dma ((s.receiveDma x).cell s.dma) := by
  funext i
  by_cases hi : i = s.dma
  · rw [hi, Function.update_self]
  · rw [Function.update_of_ne hi, receiveDma, if_pos hown]
    simp only [cell, Function.update_of_ne hi]

/-- What the DMA writes for a whole frame. -/
theorem cell_whole {x : Incoming} (hown : (s.DMARxDscrTab s.dma).OWN = true) (hi : x.i = 0)
    (hes : x.es = false) (hle : x.frame.length ≤ ETH_RX_BUF_SIZE) (hpos : 0 < x.frame.length) :
    (s.receiveDma x).cell s.dma = whole x.frame := by
  have hchunk : chunk ETH_RX_BUF_SIZE 0 x.frame = x.frame := by
    rw [chunk, Nat.zero_mul, List.drop_zero]
    exact List.take_of_length_le hle
  rw [receiveDma, if_pos hown, whole]
  simp only [cell, Function.update_self, hi, hes, lastPiece_of_le hle hpos, hchunk, decide_true]
  rw [Buf.slice_write_self _ (by omega)]

/-- What it writes for any other first piece. -/
theorem cell_stops {x : Incoming} (hown : (s.DMARxDscrTab s.dma).OWN = true) (hi : x.i = 0)
    (hbad : usable (x.frame, x.es) = false) : Stops ((s.receiveDma x).cell s.dma) := by
  rw [receiveDma, if_pos hown]
  simp only [Stops, cell, Function.update_self, hi]
  rw [usable, Bool.and_eq_false_iff] at hbad
  rcases hbad with hes | hlong
  · exact .inl (by simpa using hes)
  · refine .inr (decide_eq_false fun hlast => ?_)
    exact absurd (lastPiece_eq_zero hlast.symm) (by simpa using hlong)

theorem Books.same (h : Books os s cpu c taken u) (htab : s'.DMARxDscrTab = s.DMARxDscrTab)
    (hbuf : s'.Rx_Buff = s.Rx_Buff) (hdma : s'.dma = s.dma) (hin : s'.incoming = s.incoming) :
    Books os s' cpu c taken u := by
  have hcell : s'.cell = s.cell := by
    funext i
    rw [cell, cell, htab, hbuf]
  exact ⟨htab ▸ h.marked, hdma ▸ h.at_end, hin ▸ h.long, h.fits, by rw [hcell, hin]; exact h.flow⟩

theorem Books.of_stored {os' : List RxSeen} (h : Books os s cpu c taken u)
    (hstored : storedFrames os' = storedFrames os) : Books os' s cpu c taken u :=
  ⟨h.marked, h.at_end, h.long, h.fits, by rw [hstored]; exact h.flow⟩

/-- The DMA drops what is left of a frame. -/
theorem Books.drop (h : Books os s cpu c taken u) :
    Books os { s with RBUS := true, incoming := none } cpu c taken u := by
  obtain ⟨tail, cells, hstored, hcells, hle, hor⟩ := h.flow
  refine ⟨h.marked, h.at_end, fun x hx => (Option.not_mem_none _ hx).elim, h.fits, tail, cells,
    hstored, hcells, hle, hor.imp (fun hleft => ⟨hleft.1, hleft.2.1, fun x hx => ?_⟩) id⟩
  exact (Option.not_mem_none _ hx).elim

/-- The DMA fills a buffer. -/
theorem Books.fill (h : Books os s cpu c taken u) {x : Incoming} (hx : s.incoming = some x)
    (hown : (s.DMARxDscrTab s.dma).OWN = true) :
    ∃ u', u <+: u' ∧ Books (os ++ s.seen .dma) (s.receiveDma x) cpu (c + 1) taken u' := by
  obtain ⟨tail, cells, hstored, hcells, hle, hor⟩ := h.flow
  have hlong : 64 ≤ x.frame.length := h.long x hx
  have hfree : c < ETH_RXBUFNB := by
    refine Nat.lt_of_le_of_ne h.marked.le fun heq => ?_
    have hin := h.marked.own_in.mpr heq
    rw [← h.at_end, hown] at hin
    cases hin
  have hmarked : Ring.Marked (fun i => !((s.receiveDma x).DMARxDscrTab i).OWN) ETH_RXBUFNB cpu
      (c + 1) := by
    refine (h.marked.give hfree).congr ?_
    rw [receiveDma, if_pos hown, ← h.at_end]
    exact own_update s s.dma _
  have hend : (s.receiveDma x).dma = (cpu + (c + 1)) % ETH_RXBUFNB := by
    rw [receiveDma, if_pos hown]
    show Ring.next ETH_RXBUFNB s.dma = _
    rw [h.at_end, Ring.next_eq_mod (Nat.mod_lt _ (by decide)), Nat.mod_add_mod, Nat.add_assoc]
  have hlong' : ∀ y ∈ (s.receiveDma x).incoming, 64 ≤ y.frame.length := by
    rw [receiveDma, if_pos hown]
    intro y hy
    split at hy
    · cases hy
    · obtain rfl := Option.some.inj hy
      exact hlong
  have hcontents : Ring.contents (s.receiveDma x).cell ETH_RXBUFNB cpu (c + 1) =
      u.map whole ++ (cells ++ [(s.receiveDma x).cell s.dma]) := by
    have hput : Ring.contents (Function.update s.cell ((cpu + c) % ETH_RXBUFNB)
        ((s.receiveDma x).cell s.dma)) ETH_RXBUFNB cpu (c + 1) =
          Ring.contents s.cell ETH_RXBUFNB cpu c ++ [(s.receiveDma x).cell s.dma] :=
      Ring.contents_put s.cell hfree _
    rw [← h.at_end, ← cell_receiveDma hown, hcells, List.append_assoc] at hput
    exact hput
  by_cases hi : x.i = 0
  · have hseen : storedFrames (s.seen .dma) = [(x.frame, x.es)] := by
      simp [seen, hx, hi, hown, storedFrames]
    rcases hor with ⟨rfl, rfl, -⟩ | ⟨b, tail', g, cells', rfl, hb, rfl, hg⟩
    · cases hu : usable (x.frame, x.es) with
      | true =>
          rw [usable, Bool.and_eq_true, Bool.not_eq_true', decide_eq_true_eq] at hu
          obtain ⟨hes, hfit⟩ : x.es = false ∧ x.frame.length ≤ ETH_RX_BUF_SIZE := hu
          refine ⟨u ++ [x.frame], List.prefix_append _ _, hmarked, hend, hlong', ?_, [], [], ?_, ?_,
            Nat.le_refl _, .inl ⟨rfl, rfl, fun y hy => ?_⟩⟩
          · intro f hf
            rw [← List.append_assoc, List.mem_append, List.mem_singleton] at hf
            rcases hf with hf | rfl
            · exact h.fits f hf
            · exact ⟨hlong, hfit⟩
          · rw [storedFrames_append, hstored, hseen, hes]
            simp
          · rw [hcontents, cell_whole hown hi hes hfit (by omega)]
            simp
          · have hlast : x.i = lastPiece x.frame :=
              hi.trans (lastPiece_of_le hfit (by omega)).symm
            have hnone : (s.receiveDma x).incoming = none := by
              rw [receiveDma, if_pos hown]
              exact if_pos hlast
            rw [hnone] at hy
            cases hy
      | false =>
          refine ⟨u, List.prefix_refl _, hmarked, hend, hlong', h.fits, [(x.frame, x.es)], _, ?_,
            hcontents, Nat.le_refl _, .inr ⟨_, [], _, [], rfl, hu, rfl, cell_stops hown hi hu⟩⟩
          rw [storedFrames_append, hstored, hseen, List.append_nil]
    · refine ⟨u, List.prefix_refl _, hmarked, hend, hlong', h.fits, _, _, ?_, hcontents, ?_,
        .inr ⟨b, tail' ++ [(x.frame, x.es)], g, _, rfl, hb, rfl, hg⟩⟩
      · rw [storedFrames_append, hstored, hseen, List.append_assoc]
        rfl
      · simpa using hle
  · have hseen : storedFrames (s.seen .dma) = [] := by
      simp [seen, hx, hi, storedFrames]
    rcases hor with ⟨-, -, hzero⟩ | ⟨b, tail', g, cells', rfl, hb, rfl, hg⟩
    · exact absurd (hzero x hx) hi
    · refine ⟨u, List.prefix_refl _, hmarked, hend, hlong', h.fits, b :: tail', _, ?_, hcontents,
        ?_, .inr ⟨b, tail', g, _, rfl, hb, rfl, hg⟩⟩
      · rw [storedFrames_append, hstored, hseen, List.append_nil]
      · simp only [List.length_append, List.length_cons] at hle ⊢
        omega

/-- More frames to take do not disturb the interrupt routine. -/
theorem AtPc.mono {u' : List (List UInt8)} {pc : RxPc} (h : AtPc s cpu u pc) (hu : u <+: u')
    (hdesc : s'.RxDesc = s.RxDesc) (hinfo : s'.RxFrameInfos = s.RxFrameInfos) :
    AtPc s' cpu u' pc := by
  have hcons : ∀ f v, u = f :: v → ∃ v', u' = f :: v' := by
    rintro f v rfl
    obtain ⟨w, rfl⟩ := hu
    exact ⟨v ++ w, rfl⟩
  cases pc with
  | thread => exact ⟨hdesc.trans h.1, hinfo ▸ h.2⟩
  | test => exact ⟨hdesc.trans h.1, hinfo ▸ h.2⟩
  | clear => exact ⟨hdesc.trans h.1, hinfo ▸ h.2⟩
  | rbus p => exact ⟨hdesc.trans h.1, hinfo ▸ h.2⟩
  | give p => exact ⟨hdesc.trans h.1, hinfo ▸ h.2⟩
  | input =>
      refine ⟨hdesc.trans h.1, hinfo ▸ h.2.1, fun hnil => h.2.2 ?_⟩
      exact List.prefix_nil.mp (hnil ▸ hu)
  | copy =>
      obtain ⟨f, v, hv, hd, hi⟩ := h
      obtain ⟨v', hv'⟩ := hcons f v hv
      exact ⟨f, v', hv', hdesc.trans hd, hinfo.trans hi⟩
  | release p dmarxdesc i =>
      obtain ⟨hseg, ⟨hi, hd, hdesc', f, v, hv⟩ | ⟨hi, hd⟩⟩ := h
      · obtain ⟨v', hv'⟩ := hcons f v hv
        exact ⟨hinfo ▸ hseg, .inl ⟨hi, hd, hdesc.trans hdesc', f, v', hv'⟩⟩
      · exact ⟨hinfo ▸ hseg, .inr ⟨hi, hdesc.trans hd⟩⟩

/-- More frames behind it do not change the one that is copied. -/
theorem AtPc.copiedOf_eq {u' : List (List UInt8)} {pc : RxPc} (h : AtPc s cpu u pc)
    (hu : u <+: u') : copiedOf u' pc = copiedOf u pc := by
  cases pc with
  | release p dmarxdesc i =>
      cases i with
      | zero =>
          obtain ⟨-, ⟨-, -, -, f, v, rfl⟩ | ⟨hi, -⟩⟩ := h
          · obtain ⟨w, rfl⟩ := hu
            rfl
          · cases hi
      | succ i => rfl
  | _ => rfl

theorem inv_dma {x : Incoming} (h : Inv os s) (hx : s.incoming = some x) :
    Inv (os ++ s.seen .dma) (s.receiveDma x) := by
  obtain ⟨cpu, c, taken, u, copies, hbooks, hat, hcopies⟩ := h
  have hhandled : handledFrames (os ++ s.seen .dma) = handledFrames os := by
    rw [handledFrames_append]
    have hnone : handledFrames (s.seen .dma) = [] := by
      simp only [seen, hx]
      split <;> rfl
    rw [hnone, List.append_nil]
  have hfound : foundFree (os ++ s.seen .dma) = foundFree os := by
    rw [foundFree_append]
    have hnone : foundFree (s.seen .dma) = [] := by
      simp only [seen, hx]
      split <;> rfl
    rw [hnone, List.append_nil]
  by_cases hown : (s.DMARxDscrTab s.dma).OWN = true
  · obtain ⟨u', hu, hbooks'⟩ := hbooks.fill hx hown
    have hsame : (s.receiveDma x).pc = s.pc ∧ (s.receiveDma x).RxDesc = s.RxDesc ∧
        (s.receiveDma x).RxFrameInfos = s.RxFrameInfos := by
      rw [receiveDma, if_pos hown]
      exact ⟨rfl, rfl, rfl⟩
    exact ⟨cpu, c + 1, taken, u', copies, hbooks', hsame.1 ▸ hat.mono hu hsame.2.1 hsame.2.2,
      hcopies.keep (by rw [hsame.1, hat.copiedOf_eq hu]) hfound (by rw [hhandled, hsame.1])⟩
  · have hseen : s.seen .dma = [] := by simp [seen, hx, hown]
    rw [hseen, List.append_nil, receiveDma, if_neg hown]
    exact ⟨cpu, c, taken, u, copies, hbooks.drop, hat.mono (List.prefix_refl _) rfl rfl, hcopies⟩

/-! ## The interrupt routine -/

/-- What the driver finds where a frame can be taken. -/
theorem Books.head {f : List UInt8} (h : Books os s cpu c taken (f :: u)) :
    0 < c ∧ s.cell cpu = whole f := by
  obtain ⟨tail, cells, -, hcells, -, -⟩ := h.flow
  cases c with
  | zero => simp [Ring.contents] at hcells
  | succ c =>
      rw [Ring.contents_take s.cell h.marked.out_lt] at hcells
      exact ⟨Nat.succ_pos c, (List.cons.inj hcells).1⟩

/-- **The test of `ETH_IRQHandler`** passes exactly where a frame can be taken. -/
theorem Books.size_ne_zero_iff (h : Books os s cpu c taken u) :
    ETH_GetRxPktSize (s.DMARxDscrTab cpu) ≠ 0 ↔ u ≠ [] := by
  constructor
  · rintro hsize rfl
    rw [ETH_GetRxPktSize] at hsize
    obtain ⟨hown, hes, hls⟩ := Decidable.not_imp_comm.mp (fun hn => if_neg hn) hsize
    have hmine : (!(s.DMARxDscrTab cpu).OWN) = true := by rw [hown]; rfl
    obtain ⟨c, rfl⟩ := Nat.exists_eq_succ_of_ne_zero (h.marked.own_out.mp hmine).ne'
    obtain ⟨tail, cells, -, hcells, -, hor⟩ := h.flow
    rw [Ring.contents_take s.cell h.marked.out_lt, List.map_nil, List.nil_append] at hcells
    rcases hor with ⟨-, rfl, -⟩ | ⟨b, tail', g, cells', -, -, rfl, hg⟩
    · cases hcells
    · rw [← (List.cons.inj hcells).1] at hg
      rcases hg with hg | hg
      · exact absurd hg (by rw [cell, hes]; decide)
      · exact absurd hg (by rw [cell, hls]; decide)
  · intro hne
    obtain ⟨f, u, rfl⟩ := List.exists_cons_of_ne_nil hne
    have hdesc := congrArg Prod.fst h.head.2
    have hlen := (h.fits f (by simp)).1
    rw [show s.DMARxDscrTab cpu = ⟨false, false, true, true, f.length⟩ from hdesc,
      ETH_GetRxPktSize, if_pos ⟨rfl, rfl, rfl⟩]
    show f.length ≠ 0
    omega

/-- The descriptor of a frame is given back. -/
theorem Books.take {f : List UInt8} (h : Books os s cpu c taken (f :: u)) :
    Books os { s with
      DMARxDscrTab := Function.update s.DMARxDscrTab cpu { s.DMARxDscrTab cpu with OWN := true } }
      (Ring.next ETH_RXBUFNB cpu) (c - 1) (taken ++ [f]) u := by
  obtain ⟨c, rfl⟩ := Nat.exists_eq_succ_of_ne_zero h.head.1.ne'
  obtain ⟨tail, cells, hstored, hcells, hle, hor⟩ := h.flow
  refine ⟨h.marked.take.congr (own_update s cpu _), ?_, h.long, ?_, tail, cells, ?_, ?_, hle, hor⟩
  · rw [Nat.succ_sub_one, Ring.next_mod]
    exact h.at_end
  · intro g hg
    exact h.fits g (by simpa using hg)
  · rw [hstored, List.append_assoc, List.singleton_append]
  · rw [Ring.contents_take s.cell h.marked.out_lt, List.map_cons, List.cons_append] at hcells
    rw [← (List.cons.inj hcells).2]
    refine Ring.contents_congr fun k hk => ?_
    have hne : (Ring.next ETH_RXBUFNB cpu + k) % ETH_RXBUFNB ≠ cpu := by
      intro heq
      have hlt := h.marked.le
      have hzero : (cpu + (k + 1)) % ETH_RXBUFNB = (cpu + 0) % ETH_RXBUFNB := by
        rw [← Ring.next_mod, heq, Nat.add_zero, Nat.mod_eq_of_lt h.marked.out_lt]
      exact absurd (Ring.index_inj (by omega) (by omega) hzero) (Nat.succ_ne_zero k)
    simp only [cell, Function.update_of_ne hne]

/-- What `low_level_input` copies of a frame. -/
theorem took_copied {f : List UInt8} (h : Books os s cpu c taken (f :: u))
    (hinfo : s.RxFrameInfos = ⟨cpu, 1, UInt32.ofNat f.length - 4⟩) (free : Nat) :
    TookBy ((f, false), free) (s.copied free) := by
  obtain ⟨hlong, hfit⟩ := h.fits f (by simp)
  have hcell := h.head.2
  have hdesc : s.DMARxDscrTab cpu = ⟨false, false, true, true, f.length⟩ := congrArg Prod.fst hcell
  have hbytes : (s.Rx_Buff cpu).slice 0 f.length = f := by
    have hsnd := congrArg Prod.snd hcell
    rwa [cell, hdesc] at hsnd
  have hsize : ETH_RX_BUF_SIZE = 1524 := rfl
  have hlen : (UInt32.ofNat f.length - 4).toNat % 2 ^ 16 = f.length - 4 := by
    have hof : (UInt32.ofNat f.length).toNat = f.length := by
      rw [UInt32.toNat_ofNat']
      exact Nat.mod_eq_of_lt (by omega)
    have hfour : (4 : UInt32) ≤ UInt32.ofNat f.length := by
      rw [UInt32.le_iff_toNat_le, hof]
      exact Nat.le_trans (by decide) hlong
    rw [UInt32.toNat_sub_of_le _ _ hfour, hof]
    exact Nat.mod_eq_of_lt (by have : (4 : UInt32).toNat = 4 := rfl; omega)
  have hcopied : s.copied free = (pbuf_alloc (f.length - 4) free).map fun lens =>
      readChain s.Rx_Buff lens cpu 0 := by
    rw [copied, hinfo]
    simp only [hlen]
    rw [if_pos (by omega)]
  refine ⟨by rw [hcopied, Option.map_eq_none_iff], fun p hp => ?_⟩
  rw [hcopied] at hp
  obtain ⟨lens, hlens, rfl⟩ := Option.map_eq_some_iff.mp hp
  have hsum := sum_pbuf_alloc hlens
  calc (readChain s.Rx_Buff lens cpu 0).flatten
      = (s.Rx_Buff cpu).slice 0 (f.length - 4) := by rw [flatten_readChain _ (by omega), hsum]
    _ = ((s.Rx_Buff cpu).slice 0 f.length).take (f.length - 4) := by
        rw [Buf.slice, Buf.slice, List.take_take, Nat.min_eq_left (Nat.sub_le _ _)]
    _ = f.take (f.length - 4) := by rw [hbytes]

/-- **A step of the interrupt routine.** -/
theorem inv_isr {free : Nat} {err : Err} (h : Inv os s) (hk : s.isr free = some s') :
    Inv (os ++ s.seen (.isr free err)) s' := by
  obtain ⟨cpu, c, taken, u, copies, hbooks, hat, hcopies⟩ := h
  cases hpc : s.pc with
  | thread =>
      rw [isr, hpc] at hk
      cases hk
  | test =>
      rw [hpc] at hat hcopies
      simp only [isr, hpc] at hk
      obtain rfl := Option.some.inj hk
      simp only [seen, hpc, List.append_nil]
      refine ⟨cpu, c, taken, u, copies, hbooks.same rfl rfl rfl rfl, ?_, hcopies.keep ?_ rfl ?_⟩
      · show AtPc _ cpu u (if _ then _ else _)
        split
        · next hsize =>
            rw [hat.1, hbooks.size_ne_zero_iff] at hsize
            exact ⟨hat.1, hat.2, hsize⟩
        · exact hat
      · show _ ++ copiedOf u (if _ then _ else _) = _
        split <;> rfl
      · show _ ++ inHand (if _ then _ else _) = _
        split <;> rfl
  | input =>
      rw [hpc] at hat hcopies
      obtain ⟨hdesc, hseg, hne⟩ := hat
      obtain ⟨f, u, rfl⟩ := List.exists_cons_of_ne_nil hne
      have htab : s.DMARxDscrTab s.RxDesc = ⟨false, false, true, true, f.length⟩ :=
        hdesc ▸ congrArg Prod.fst hbooks.head.2
      simp only [isr, hpc, HAL_ETH_GetReceivedFrame, htab, hseg, if_true] at hk
      obtain rfl := Option.some.inj hk
      simp only [seen, hpc, List.append_nil]
      exact ⟨cpu, c, taken, f :: u, copies, hbooks.same rfl rfl rfl rfl,
        ⟨f, u, rfl, by rw [hdesc], by rw [hdesc]⟩, hcopies.keep rfl rfl rfl⟩
  | copy =>
      rw [hpc] at hat hcopies
      obtain ⟨f, u, rfl, hdesc, hinfo⟩ := hat
      simp only [isr, hpc] at hk
      obtain rfl := Option.some.inj hk
      simp only [seen, hpc]
      refine ⟨cpu, c, taken, f :: u, copies ++ [((f, false), free)],
        (hbooks.of_stored ?_).same rfl rfl rfl rfl,
        ⟨by rw [hinfo], .inl ⟨rfl, by rw [hinfo], hdesc, f, u, rfl⟩⟩, ?_, ?_, ?_⟩
      · rw [storedFrames_append]
        exact List.append_nil _
      · have hnone : copiedOf (f :: u) .copy = [] := rfl
        rw [List.map_append, List.map_append, hcopies.frames, hnone, List.append_nil]
        rfl
      · rw [List.map_append, hcopies.found, foundFree_append]
        rfl
      · have htook := hcopies.took
        have hnone : inHand .copy = [] := rfl
        have hhandled : handledFrames (os ++ [.found free]) = handledFrames os :=
          (handledFrames_append _ _).trans (List.append_nil _)
        rw [hnone, List.append_nil] at htook
        rw [hhandled]
        exact List.rel_append htook (.cons (took_copied hbooks hinfo free) .nil)
  | release p dmarxdesc i =>
      rw [hpc] at hat hcopies
      obtain ⟨hseg, ⟨rfl, rfl, hdesc, f, u, rfl⟩ | ⟨rfl, hdesc⟩⟩ := hat
      · simp only [isr, hpc, hseg, Nat.zero_lt_one, if_true] at hk
        obtain rfl := Option.some.inj hk
        simp only [seen, hpc, List.append_nil]
        exact ⟨_, c - 1, taken ++ [f], u, copies, hbooks.take.same rfl rfl rfl rfl,
          ⟨hseg, .inr ⟨rfl, hdesc⟩⟩, hcopies.keep (List.append_nil _) rfl rfl⟩
      · simp only [isr, hpc, hseg, Nat.lt_irrefl, if_false] at hk
        obtain rfl := Option.some.inj hk
        simp only [seen, hpc, List.append_nil]
        exact ⟨cpu, c, taken, u, copies, hbooks.same rfl rfl rfl rfl, ⟨hdesc, rfl⟩,
          hcopies.keep rfl rfl rfl⟩
  | rbus p =>
      rw [hpc] at hat hcopies
      simp only [isr, hpc] at hk
      obtain rfl := Option.some.inj hk
      simp only [seen, hpc, List.append_nil]
      exact ⟨cpu, c, taken, u, copies, hbooks.same rfl rfl rfl rfl, hat, hcopies.keep rfl rfl rfl⟩
  | give p =>
      rw [hpc] at hat hcopies
      simp only [isr, hpc] at hk
      obtain rfl := Option.some.inj hk
      have hseen : s.seen (.isr free err) = [.handled p (if p = none then .ERR_MEM else err)] := by
        rw [seen, hpc]
        cases p <;> rfl
      rw [hseen]
      refine ⟨cpu, c, taken, u, copies, (hbooks.of_stored ?_).same rfl rfl rfl rfl, hat,
        hcopies.keep rfl ?_ ?_⟩
      · rw [storedFrames_append]
        exact List.append_nil _
      · rw [foundFree_append]
        exact List.append_nil _
      · rw [handledFrames_append, List.append_assoc]
        rfl
  | clear =>
      rw [hpc] at hat hcopies
      simp only [isr, hpc] at hk
      obtain rfl := Option.some.inj hk
      simp only [seen, hpc, List.append_nil]
      exact ⟨cpu, c, taken, u, copies, hbooks.same rfl rfl rfl rfl, hat, hcopies.keep rfl rfl rfl⟩

end Steps

/-! ## Runs -/

theorem inv_step {os : List RxSeen} {s s' : Rx} {ev : RxEvent} (h : Inv os s)
    (hk : s.step ev = some s') : Inv (os ++ s.seen ev) s' := by
  cases ev with
  | frame frame es =>
      obtain ⟨⟨-, hnone, hlong⟩, hk⟩ := Option.ite_none_right_eq_some.mp hk
      obtain rfl := Option.some.inj hk
      obtain ⟨cpu, c, taken, u, copies, hbooks, hat, hcopies⟩ := h
      obtain ⟨tail, cells, hstored, hcells, hle, hor⟩ := hbooks.flow
      simp only [seen, List.append_nil]
      refine ⟨cpu, c, taken, u, copies, ⟨hbooks.marked, hbooks.at_end, fun x hx => ?_, hbooks.fits,
        tail, cells, hstored, hcells, hle,
        hor.imp (fun hleft => ⟨hleft.1, hleft.2.1, fun x hx => ?_⟩) id⟩,
        hat.mono (List.prefix_refl _) rfl rfl, hcopies⟩
      · obtain rfl := Option.some.inj hx
        exact hlong
      · obtain rfl := Option.some.inj hx
        rfl
  | dma =>
      obtain ⟨x, hx, rfl⟩ := Option.map_eq_some_iff.mp hk
      exact inv_dma h hx
  | ETH_IRQHandler =>
      obtain ⟨⟨-, hpc⟩, hk⟩ := Option.ite_none_right_eq_some.mp hk
      obtain rfl := Option.some.inj hk
      obtain ⟨cpu, c, taken, u, copies, hbooks, hat, hcopies⟩ := h
      rw [hpc] at hat hcopies
      simp only [seen, List.append_nil]
      exact ⟨cpu, c, taken, u, copies, hbooks.same rfl rfl rfl rfl, hat, hcopies.keep rfl rfl rfl⟩
  | isr free err => exact inv_isr h hk

theorem inv_boot (bufs : Nat → Buf UInt8 ETH_RX_BUF_SIZE) : Inv [] (boot bufs) := by
  have hout : 0 < ETH_RXBUFNB := Nat.succ_pos 9
  refine ⟨0, 0, [], [], [], ⟨⟨hout, Nat.zero_le _, fun k _ => ?_⟩, rfl, fun x hx => ?_,
    fun f hf => ?_, [], [], rfl, rfl, Nat.le_refl _, .inl ⟨rfl, rfl, fun x hx => ?_⟩⟩, ⟨rfl, rfl⟩,
    rfl, rfl, .nil⟩
  · simp [boot]
  · cases hx
  · cases hf
  · cases hx

/-- What is seen along a run. -/
def story (bufs : Nat → Buf UInt8 ETH_RX_BUF_SIZE) (evs : List RxEvent) : List RxSeen :=
  trace step seen (boot bufs) evs

theorem inv_of_run {bufs : Nat → Buf UInt8 ETH_RX_BUF_SIZE} {evs : List RxEvent} {s : Rx}
    (hrun : run step (boot bufs) evs = some s) : Inv (story bufs evs) s :=
  (run_ledger (I := fun _ => True) (L := fun s os => Inv os s)
    (fun _ _ _ _ _ hL hk => ⟨trivial, inv_step hL hk⟩) trivial (inv_boot bufs) hrun).2

/-- Buffers of zeros. -/
def zeros (_ : Nat) : Buf UInt8 ETH_RX_BUF_SIZE := .fill _ 0

/-- A frame comes and is taken. -/
def oneFrame : List RxEvent :=
  [.frame (.replicate 64 7) false, .dma, .ETH_IRQHandler] ++ .replicate 9 (.isr 20 .ERR_OK)

/-- A frame of 1600 bytes comes, and then another one. -/
def longFrame : List RxEvent :=
  [.frame (.replicate 1600 7) false, .dma, .dma, .ETH_IRQHandler, .isr 20 .ERR_OK,
    .isr 20 .ERR_OK, .frame (.replicate 64 7) false, .dma]

/-- The state behind events that can happen. -/
def behind (evs : List RxEvent) : Rx := (run step (boot zeros) evs).getD (boot zeros)

theorem run_behind {evs : List RxEvent} (h : (run step (boot zeros) evs).isSome = true) :
    run step (boot zeros) evs = some (behind evs) := by
  rw [behind, Option.getD_of_ne_none (Option.isSome_iff_ne_none.mp h)]

section Usable

variable {os : List RxSeen} {s : Rx} {cpu c : Nat} {taken u : List (List UInt8)}

theorem copiedOf_within (u : List (List UInt8)) (pc : RxPc) : copiedOf u pc <+: u := by
  unfold copiedOf
  split
  · exact List.take_prefix 1 u
  · exact List.nil_prefix

/-- No more frames are handed on than taken: the one whose descriptor is not given back is
still in hand. -/
theorem Copies.length_handled_le {pc : RxPc} {copies : List ((List UInt8 × Bool) × Nat)}
    (h : Copies os pc taken u copies) : (handledFrames os).length ≤ taken.length := by
  have hframes := congrArg List.length h.frames
  have htook := h.took.length_eq
  simp only [List.length_map, List.length_append] at hframes htook
  have hhand : (copiedOf u pc).length ≤ (inHand pc).length := by
    unfold copiedOf
    split
    · exact List.length_take_le 1 u
    · exact Nat.zero_le _
  omega

/-- The frames that can be taken are those before the first that cannot. -/
theorem Books.takeWhile_eq (h : Books os s cpu c taken u) :
    (storedFrames os).takeWhile usable = (taken ++ u).map (·, false) := by
  obtain ⟨tail, cells, hstored, -, -, hor⟩ := h.flow
  have hall : ∀ x ∈ (taken ++ u).map (·, false), usable x = true := by
    intro x hx
    obtain ⟨f, hf, rfl⟩ := List.mem_map.mp hx
    simp [usable, (h.fits f hf).2]
  rw [hstored, List.takeWhile_append_of_pos hall]
  rcases hor with ⟨rfl, -, -⟩ | ⟨b, tail', g, cells', rfl, hb, -, -⟩
  · rw [List.takeWhile_nil, List.append_nil]
  · rw [List.takeWhile_cons_of_neg (by rw [hb]; decide), List.append_nil]

/-- No more frames lie in the circle than it has buffers. -/
theorem Books.length_stored_le (h : Books os s cpu c taken u) :
    (storedFrames os).length ≤ taken.length + ETH_RXBUFNB := by
  obtain ⟨tail, cells, hstored, hcells, hle, -⟩ := h.flow
  have hlen := congrArg List.length hcells
  rw [Ring.length_contents, List.length_append, List.length_map] at hlen
  rw [hstored, List.length_append, List.length_map, List.length_append]
  have := h.marked.le
  omega

end Usable

/-- **What is taken.**  In every run, whatever the DMA does between the accesses of the interrupt
routine: the frames it takes are those the DMA stored, in order, up to the first that is erroneous
or longer than a buffer; and lwIP is given every byte but the CRC of each of them, except where
`pbuf_alloc` fails with as many pbufs as were left in the pool. -/
theorem run_taken {bufs : Nat → Buf UInt8 ETH_RX_BUF_SIZE} {evs : List RxEvent} {s : Rx}
    (hrun : run step (boot bufs) evs = some s) :
    ∃ copies, copies.map Prod.fst <+: (storedFrames (story bufs evs)).takeWhile usable ∧
      copies.map Prod.snd = foundFree (story bufs evs) ∧
      List.Forall₂ TookBy copies (handledFrames (story bufs evs) ++ inHand s.pc) := by
  obtain ⟨cpu, c, taken, u, copies, hbooks, -, hcopies⟩ := inv_of_run hrun
  refine ⟨copies, ?_, hcopies.found, hcopies.took⟩
  rw [hbooks.takeWhile_eq, hcopies.frames]
  exact ((List.prefix_append_right_inj taken).mpr (copiedOf_within u s.pc)).map _

theorem run_taken_one :
    ∃ copies, copies.map Prod.fst <+: (storedFrames (story zeros oneFrame)).takeWhile usable ∧
      copies.map Prod.snd = foundFree (story zeros oneFrame) ∧
      List.Forall₂ TookBy copies
        (handledFrames (story zeros oneFrame) ++ inHand (behind oneFrame).pc) :=
  run_taken (run_behind (by decide +kernel))

example : handledFrames (story zeros oneFrame) = [some [.replicate 60 7]] := by decide +kernel

/-- **Reception ends** with the first frame that is erroneous or longer than a buffer: if it is
the `n`-th frame stored, then in no run that stored it were more than the `n` frames before it
ever taken, nor more than ten frames stored from it on. -/
theorem run_ends {bufs : Nat → Buf UInt8 ETH_RX_BUF_SIZE} {evs : List RxEvent} {s : Rx}
    (hrun : run step (boot bufs) evs = some s) {n : Nat} {x : List UInt8 × Bool}
    (hx : (storedFrames (story bufs evs))[n]? = some x) (hbad : usable x = false) :
    (handledFrames (story bufs evs)).length ≤ n ∧
      (storedFrames (story bufs evs)).length ≤ n + ETH_RXBUFNB := by
  obtain ⟨cpu, c, taken, u, copies, hbooks, -, hcopies⟩ := inv_of_run hrun
  have hlen := hcopies.length_handled_le
  have hle := hbooks.length_stored_le
  have htaken : taken.length ≤ n := by
    by_contra hlt
    obtain ⟨tail, cells, hstored, -⟩ := hbooks.flow
    rw [hstored, List.map_append, List.append_assoc,
      List.getElem?_append_left (by rw [List.length_map]; omega)] at hx
    obtain ⟨f, hf, rfl⟩ := List.mem_map.mp (List.mem_of_getElem? hx)
    have hfit := (hbooks.fits f (List.mem_append_left u hf)).2
    simp [usable, hfit] at hbad
  omega

theorem run_ends_long :
    (handledFrames (story zeros longFrame)).length ≤ 0 ∧
      (storedFrames (story zeros longFrame)).length ≤ 0 + ETH_RXBUFNB :=
  run_ends (run_behind (by decide +kernel))
    (show _ = some (.replicate 1600 7, false) by decide +kernel) (by decide +kernel)

/-- No frame ends between the last test of the interrupt routine and the clearing of its flag. -/
def OutsideWindow (s : Rx) (ev : RxEvent) : Prop :=
  s.pc = .clear → ev = .dma → ∀ x ∈ s.incoming, x.i ≠ lastPiece x.frame

instance (s : Rx) (ev : RxEvent) : Decidable (OutsideWindow s ev) :=
  inferInstanceAs (Decidable (_ → _ → ∀ x ∈ s.incoming, x.i ≠ lastPiece x.frame))

/-- While the flag is clear, or about to be, the next descriptor holds no frame. -/
def Quiet (s : Rx) : Prop :=
  s.pc = .clear ∨ (s.pc = .thread ∧ s.R = false) →
    ETH_GetRxPktSize (s.DMARxDscrTab s.RxDesc) = 0

theorem quiet_dma {s : Rx} {x : Incoming} (h : Quiet s)
    (hout : s.pc = .clear → x.i ≠ lastPiece x.frame) : Quiet (s.receiveDma x) := by
  rw [receiveDma]
  split
  · intro hpc
    have hmore : x.i ≠ lastPiece x.frame := by
      rcases hpc with hclear | ⟨-, hflag⟩
      · exact hout hclear
      · intro hlast
        simp [hlast] at hflag
    have hsame : s.pc = .clear ∨ (s.pc = .thread ∧ s.R = false) :=
      hpc.imp id fun hidle => ⟨hidle.1, (Bool.or_eq_false_iff.mp hidle.2).1⟩
    show ETH_GetRxPktSize (Function.update s.DMARxDscrTab s.dma _ s.RxDesc) = 0
    by_cases hdesc : s.RxDesc = s.dma
    · rw [hdesc, Function.update_self, ETH_GetRxPktSize, if_neg]
      rintro ⟨-, -, hls⟩
      exact hmore (of_decide_eq_true hls)
    · rw [Function.update_of_ne hdesc]
      exact h hsame
  · exact h

theorem quiet_step {s s' : Rx} {ev : RxEvent} (h : Quiet s) (hout : OutsideWindow s ev)
    (hk : s.step ev = some s') : Quiet s' := by
  cases ev with
  | frame frame es =>
      obtain ⟨-, hk⟩ := Option.ite_none_right_eq_some.mp hk
      exact Option.some.inj hk ▸ h
  | dma =>
      obtain ⟨x, hx, rfl⟩ := Option.map_eq_some_iff.mp hk
      exact quiet_dma h fun hclear => hout hclear rfl x hx
  | ETH_IRQHandler =>
      obtain ⟨-, hk⟩ := Option.ite_none_right_eq_some.mp hk
      obtain rfl := Option.some.inj hk
      rintro (hpc | ⟨hpc, -⟩) <;> cases hpc
  | isr free err =>
      have hk' : s.isr free = some s' := hk
      cases hpc : s.pc with
      | thread =>
          rw [isr, hpc] at hk'
          cases hk'
      | test =>
          simp only [isr, hpc] at hk'
          obtain rfl := Option.some.inj hk'
          intro hnext
          show ETH_GetRxPktSize (s.DMARxDscrTab s.RxDesc) = 0
          by_contra hsize
          simp [hsize] at hnext
      | clear =>
          simp only [isr, hpc] at hk'
          obtain rfl := Option.some.inj hk'
          exact fun _ => h (.inl hpc)
      | release p dmarxdesc i =>
          simp only [isr, hpc] at hk'
          split at hk'
          · obtain rfl := Option.some.inj hk'
            rintro (hnext | ⟨hnext, -⟩) <;> cases hnext
          · obtain rfl := Option.some.inj hk'
            rintro (hnext | ⟨hnext, -⟩) <;> cases hnext
      | input =>
          simp only [isr, hpc] at hk'
          obtain rfl := Option.some.inj hk'
          intro hnext
          exfalso
          revert hnext
          dsimp only
          split <;> simp
      | copy =>
          simp only [isr, hpc] at hk'
          obtain rfl := Option.some.inj hk'
          rintro (hnext | ⟨hnext, -⟩) <;> cases hnext
      | rbus p =>
          simp only [isr, hpc] at hk'
          obtain rfl := Option.some.inj hk'
          rintro (hnext | ⟨hnext, -⟩) <;> cases hnext
      | give p =>
          simp only [isr, hpc] at hk'
          obtain rfl := Option.some.inj hk'
          rintro (hnext | ⟨hnext, -⟩) <;> cases hnext

/-- **No frame waits.**  In every run in which no frame ends in that window: whenever the interrupt
routine is not running and its flag is clear, all frames that can be taken have been. -/
theorem run_caught_up {bufs : Nat → Buf UInt8 ETH_RX_BUF_SIZE} {evs : List RxEvent} {s : Rx}
    (hrun : RunBy step OutsideWindow (boot bufs) evs s) (hpc : s.pc = .thread)
    (hflag : s.R = false) :
    List.Forall₂ Took ((storedFrames (story bufs evs)).takeWhile usable)
      (handledFrames (story bufs evs)) := by
  have hquiet : Quiet s := hrun.invariant (fun _ _ _ h hout hk => quiet_step h hout hk) fun _ => rfl
  obtain ⟨cpu, c, taken, u, copies, hbooks, hat, hcopies⟩ := inv_of_run hrun.run
  rw [hpc] at hat hcopies
  have hsize := hquiet (.inr ⟨hpc, hflag⟩)
  rw [hat.1] at hsize
  have hu : u = [] := by
    by_contra hne
    exact hbooks.size_ne_zero_iff.mpr hne hsize
  have hframes := hcopies.frames
  have htook := hcopies.took
  have hnone : copiedOf u .thread = [] ∧ inHand .thread = [] := ⟨rfl, rfl⟩
  rw [hnone.1, List.append_nil] at hframes
  rw [hnone.2, List.append_nil] at htook
  rw [hbooks.takeWhile_eq, hu, List.append_nil, ← hframes, List.forall₂_map_left_iff]
  exact htook.imp fun _ _ h => h.2

theorem run_caught_up_one :
    List.Forall₂ Took ((storedFrames (story zeros oneFrame)).takeWhile usable)
      (handledFrames (story zeros oneFrame)) :=
  run_caught_up ⟨run_behind (by decide +kernel), by decide +kernel⟩ (by decide +kernel)
    (by decide +kernel)

/-- A frame that ends in the window waits behind a flag that is clear. -/
example :
    let s := behind (oneFrame.take 11 ++ [.frame (.replicate 64 8) false, .dma, .isr 20 .ERR_OK])
    s.pc = .thread ∧ s.R = false ∧ ETH_GetRxPktSize (s.DMARxDscrTab s.RxDesc) = 64 := by
  decide +kernel

end Rx

end NetCamera.Eth
