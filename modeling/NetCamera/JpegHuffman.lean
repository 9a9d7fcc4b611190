import Mathlib.Data.List.Nodup
import Mathlib.Data.List.Perm.Subperm
import NetCamera.JpegWalk

/-!
# NetCamera.JpegHuffman

Huffman tables go out without loss.

`DefineHuffmanTableMarkerAC` and `DefineHuffmanTableMarkerDC` sweep twice over a
table: once to count the entries of each code length, once to list their values,
where the AC table keeps two entries apart (160 and 161) that the listing has to
visit between the others.  The sweeps are written out here as the loops run; both
give one marker (`huffmanMarker`) over a `SymbolOrder`, the order in which the
listing visits the entries, and a reader finds the code lengths of the table in it
(`huffman_transmitted`).
-/

namespace NetCamera

open JpegFormat

/-! ## The two sweeps -/

namespace Sweep

/-- Where a writer stands: the bytes of its segment and the local `length`. -/
structure Put where
  pbuf : List UInt8
  length : Nat

/-- The entry has code length `l + 1`: `(htable[i] >> 8) == l`. -/
def ofLength (htable : Nat → UInt32) (l i : Nat) : Bool := (htable i >>> 8).toNat == l

/-- Count the entries of code length `l + 1` among the first `n`. -/
def count (htable : Nat → UInt32) (n l : Nat) : Nat :=
  (List.range n).foldl (fun count i => if ofLength htable l i then count + 1 else count) 0

/-- `*pbuf++= v; length++;` for an entry of code length `l + 1`. -/
def put (htable : Nat → UInt32) (l : Nat) (v : Nat → UInt8) (w : Put) (i : Nat) : Put :=
  if ofLength htable l i then { pbuf := w.pbuf ++ [v i], length := w.length + 1 } else w

/-- `(a<<4)|(b+1)` with `a = i/10` and `b = i%10`. -/
def runSize (i : Nat) : UInt8 := UInt8.ofNat ((i / 10) <<< 4 ||| (i % 10 + 1))

/-- The frame of both writers: the marker, two places for the length, the class, the counts
of the first `n` entries, the values that `list` stores, and then the length. -/
def segment (htable : Nat → UInt32) (n : Nat) (list : Nat → Put → Put)
    (class_id hole hole' : UInt8) : Marker :=
  let pbuf := [0xFF, 0xC4, hole, hole', class_id]
  let pbuf := (List.range 16).foldl (fun pbuf l => pbuf ++ [UInt8.ofNat (count htable n l)]) pbuf
  let w := (List.range 16).foldl (fun w l => list l w) { pbuf := pbuf, length := 19 }
  { bytes := (w.pbuf.set 2 (UInt8.ofNat (w.length / 256))).set 3 (UInt8.ofNat w.length)
    ret := w.length + 2 }

def DefineHuffmanTableMarkerDC (htable : Nat → UInt32) (class_id hole hole' : UInt8) : Marker :=
  segment htable 12 (fun l w => (List.range 12).foldl (put htable l UInt8.ofNat) w)
    class_id hole hole'

def DefineHuffmanTableMarkerAC (htable : Nat → UInt32) (class_id hole hole' : UInt8) : Marker :=
  segment htable 162
    (fun l w =>
      let w := put htable l (fun _ => 0) w 160
      let w := (List.range 150).foldl (put htable l runSize) w
      let w := put htable l (fun _ => 0xF0) w 161
      (List.range' 150 10).foldl (put htable l runSize) w)
    class_id hole hole'

/-! ### What they store -/

theorem count_eq (htable : Nat → UInt32) (n l : Nat) :
    count htable n l = ((List.range n).filter (ofLength htable l)).length := by
  have hfold : ∀ (is : List Nat) (c : Nat),
      is.foldl (fun count i => if ofLength htable l i then count + 1 else count) c =
        c + (is.filter (ofLength htable l)).length := by
    intro is
    induction is with
    | nil => exact fun c => rfl
    | cons i is ih =>
        intro c
        rw [List.foldl_cons, ih, List.filter_cons]
        split
        · rw [List.length_cons]
          omega
        · rfl
  rw [count, hfold, Nat.zero_add]

/-- A sweep over `is` lists the values of the entries of code length `l + 1`. -/
theorem foldl_put (htable : Nat → UInt32) (l : Nat) (v : Nat → UInt8) (is : List Nat) (w : Put) :
    is.foldl (put htable l v) w =
      { pbuf := w.pbuf ++ (is.filter (ofLength htable l)).map v,
        length := w.length + ((is.filter (ofLength htable l)).map v).length } := by
  induction is generalizing w with
  | nil => simp
  | cons i is ih =>
      rw [List.foldl_cons, ih, List.filter_cons, put]
      split
      · simp only [List.append_assoc, List.singleton_append, List.map_cons, List.length_cons,
          Put.mk.injEq, true_and]
        omega
      · rfl

/-- A single test is a sweep over one entry. -/
theorem put_eq (htable : Nat → UInt32) (l : Nat) (v : Nat → UInt8) (w : Put) (i : Nat) :
    put htable l v w i = [i].foldl (put htable l v) w := rfl

/-- The frame around a listing that stores `vals l` for each code length. -/
theorem segment_eq {htable : Nat → UInt32} {n : Nat} {list : Nat → Put → Put}
    {vals : Nat → List UInt8} (hlist : ∀ l w, list l w =
      { pbuf := w.pbuf ++ vals l, length := w.length + (vals l).length })
    (class_id hole hole' : UInt8) :
    segment htable n list class_id hole hole' =
      huffmanMarker class_id (fun l => ((List.range n).filter (ofLength htable l)).length)
        vals := by
  have hcounts : ∀ (ls : List Nat) (pbuf : List UInt8),
      ls.foldl (fun pbuf l => pbuf ++ [UInt8.ofNat (count htable n l)]) pbuf =
        pbuf ++ ls.map fun l => UInt8.ofNat (count htable n l) := by
    intro ls
    induction ls with
    | nil => simp
    | cons l ls ih => simp [ih]
  have hvals : ∀ (ls : List Nat) (w : Put), ls.foldl (fun w l => list l w) w =
      { pbuf := w.pbuf ++ ls.flatMap vals, length := w.length + (ls.flatMap vals).length } := by
    intro ls
    induction ls with
    | nil => simp
    | cons l ls ih =>
        intro w
        rw [List.foldl_cons, ih, hlist, List.flatMap_cons, List.length_append]
        simp only [List.append_assoc, Put.mk.injEq, true_and]
        omega
  simp only [segment, hcounts, hvals, huffmanMarker, be16, List.cons_append, List.nil_append,
    List.set_cons_succ, List.set_cons_zero]
  simp only [count_eq]

end Sweep

/-! ## The order of the listing -/

/-- The value an AC entry stands for. -/
def acSymbol (i : Nat) : UInt8 :=
  if i = 160 then 0x00 else if i = 161 then 0xF0 else Sweep.runSize i

/-- The AC entries as the listing visits them. -/
def acOrder : List Nat := [160] ++ List.range 150 ++ [161] ++ List.range' 150 10

/-- The values of code length `l + 1`, listed in the order `order`. -/
def listing (htable : Nat → UInt32) (symbol : Nat → UInt8) (order : List Nat) (l : Nat) :
    List UInt8 := (order.filter (Sweep.ofLength htable l)).map symbol

/-- `order` visits each of `n` entries once, with increasing values. -/
structure SymbolOrder (symbol : Nat → UInt8) (order : List Nat) (n : Nat) : Prop where
  perm : order.Perm (List.range n)
  increasing : order.Pairwise fun i j => symbol i < symbol j

theorem acOrder_symbolOrder : SymbolOrder acSymbol acOrder 162 :=
  ⟨by decide +kernel, by decide +kernel⟩

theorem dcOrder_symbolOrder : SymbolOrder UInt8.ofNat (List.range 12) 12 :=
  ⟨List.Perm.refl _, by decide⟩

theorem sweepAC_eq (htable : Nat → UInt32) (class_id hole hole' : UInt8) :
    Sweep.DefineHuffmanTableMarkerAC htable class_id hole hole' =
      huffmanMarker class_id
        (fun l => ((List.range 162).filter (Sweep.ofLength htable l)).length)
        (listing htable acSymbol acOrder) := by
  refine Sweep.segment_eq (fun l w => ?_) class_id hole hole'
  have hmap : ∀ (v : Nat → UInt8) (is : List Nat), (∀ i ∈ is, v i = acSymbol i) →
      (is.filter (Sweep.ofLength htable l)).map v =
        (is.filter (Sweep.ofLength htable l)).map acSymbol := fun v is hv =>
    List.map_congr_left fun i hi => hv i (List.mem_filter.mp hi).1
  have hlow : ∀ i ∈ List.range 150, Sweep.runSize i = acSymbol i := by
    intro i hi
    have := List.mem_range.mp hi
    rw [acSymbol, if_neg (by omega), if_neg (by omega)]
  have hhigh : ∀ i ∈ List.range' 150 10, Sweep.runSize i = acSymbol i := by
    intro i hi
    have := List.mem_range'_1.mp hi
    rw [acSymbol, if_neg (by omega), if_neg (by omega)]
  simp only [Sweep.put_eq, Sweep.foldl_put]
  rw [hmap (fun _ => 0) [160] (by decide), hmap Sweep.runSize _ hlow,
    hmap (fun _ => 0xF0) [161] (by decide), hmap Sweep.runSize _ hhigh]
  simp only [listing, acOrder, List.filter_append, List.map_append, List.length_append,
    List.append_assoc, Nat.add_assoc]

theorem sweepDC_eq (htable : Nat → UInt32) (class_id hole hole' : UInt8) :
    Sweep.DefineHuffmanTableMarkerDC htable class_id hole hole' =
      huffmanMarker class_id
        (fun l => ((List.range 12).filter (Sweep.ofLength htable l)).length)
        (listing htable UInt8.ofNat (List.range 12)) := by
  refine Sweep.segment_eq (fun l w => ?_) class_id hole hole'
  rw [Sweep.foldl_put]
  rfl

/-! ### The markers of the header -/

/-- The entries `codesOf` finds in a table of `n` entries. -/
theorem codesOf_table (htable : Nat → UInt32) (n : Nat) {is : List Nat} (his : ∀ i ∈ is, i < n)
    (l : Nat) : codesOf ((List.range n).map fun i => (htable i).toNat) is l =
      is.filter (Sweep.ofLength htable l) := by
  refine List.filter_congr fun i hi => ?_
  rw [Sweep.ofLength, List.getD_eq_getElem?_getD, List.getElem?_map,
    List.getElem?_range (his i hi), UInt32.toNat_shiftRight, Nat.shiftRight_eq_div_pow]
  rfl

theorem sweepAC_model (htable : Nat → UInt32) (class_id hole hole' : UInt8) :
    Sweep.DefineHuffmanTableMarkerAC htable class_id hole hole' =
      DefineHuffmanTableMarkerAC ((List.range 162).map fun i => (htable i).toNat) class_id := by
  have hvalue : ∀ i < 160, acValue i = acSymbol i := by decide +kernel
  have hmap : ∀ (l : Nat) (v : Nat → UInt8) (is : List Nat), (∀ i ∈ is, i < 162) →
      (∀ i ∈ is, v i = acSymbol i) →
      (codesOf ((List.range 162).map fun i => (htable i).toNat) is l).map v =
        (is.filter (Sweep.ofLength htable l)).map acSymbol := by
    intro l v is his hv
    rw [codesOf_table htable 162 his]
    exact List.map_congr_left fun i hi => hv i (List.mem_filter.mp hi).1
  have hlow : ∀ i ∈ List.range 150, i < 150 := fun i => List.mem_range.mp
  have hhigh : ∀ i ∈ List.range' 150 10, i < 160 := fun i hi => (List.mem_range'_1.mp hi).2
  have hlisting : listing htable acSymbol acOrder = fun l =>
      (codesOf ((List.range 162).map fun i => (htable i).toNat) [160] l).map (fun _ => 0) ++
      (codesOf ((List.range 162).map fun i => (htable i).toNat) (List.range 150) l).map acValue ++
      (codesOf ((List.range 162).map fun i => (htable i).toNat) [161] l).map (fun _ => 0xF0) ++
      (codesOf ((List.range 162).map fun i => (htable i).toNat) (List.range' 150 10) l).map
        acValue := by
    funext l
    rw [hmap l (fun _ => 0) [160] (by decide) (by decide),
      hmap l acValue (List.range 150) (fun i hi => Nat.lt_trans (hlow i hi) (by omega))
        (fun i hi => hvalue i (Nat.lt_trans (hlow i hi) (by omega))),
      hmap l (fun _ => 0xF0) [161] (by decide) (by decide),
      hmap l acValue (List.range' 150 10) (fun i hi => Nat.lt_trans (hhigh i hi) (by omega))
        (fun i hi => hvalue i (hhigh i hi))]
    simp only [listing, acOrder, List.filter_append, List.map_append]
  rw [sweepAC_eq, DefineHuffmanTableMarkerAC, hlisting]
  simp only [codesOf_table htable 162 (fun i => List.mem_range.mp)]

theorem sweepDC_model (htable : Nat → UInt32) (class_id hole hole' : UInt8) :
    Sweep.DefineHuffmanTableMarkerDC htable class_id hole hole' =
      DefineHuffmanTableMarkerDC ((List.range 12).map fun i => (htable i).toNat) class_id := by
  rw [sweepDC_eq, DefineHuffmanTableMarkerDC]
  simp only [codesOf_table htable 12 (fun i => List.mem_range.mp)]
  rfl

/-! ## What a reader finds -/

section Reading

variable {htable : Nat → UInt32} {symbol : Nat → UInt8} {order : List Nat} {n : Nat}

theorem mem_listing {l : Nat} {v : UInt8} :
    v ∈ listing htable symbol order l ↔ ∃ i ∈ order, (htable i >>> 8).toNat = l ∧ symbol i = v := by
  simp only [listing, List.mem_map, List.mem_filter, Sweep.ofLength, beq_iff_eq, and_assoc]

namespace SymbolOrder

variable (h : SymbolOrder symbol order n)
include h

theorem mem_iff {i : Nat} : i ∈ order ↔ i < n := by rw [h.perm.mem_iff, List.mem_range]

/-- Different entries have different values. -/
theorem inj {i j : Nat} (hi : i < n) (hj : j < n) (hij : symbol i = symbol j) : i = j := by
  have hnodup : (order.map symbol).Nodup :=
    List.pairwise_map.mpr (h.increasing.imp UInt8.ne_of_lt)
  exact List.inj_on_of_nodup_map hnodup (h.mem_iff.mpr hi) (h.mem_iff.mpr hj) hij

/-- The sweep that counts and the sweep that lists find the same entries. -/
theorem length_listing (l : Nat) : (listing htable symbol order l).length =
    ((List.range n).filter (Sweep.ofLength htable l)).length := by
  rw [listing, List.length_map]
  exact (h.perm.filter _).length_eq

theorem length_listing_le (l : Nat) : (listing htable symbol order l).length ≤ n := by
  rw [h.length_listing]
  exact Nat.le_trans (List.length_filter_le _ _) (Nat.le_of_eq List.length_range)

/-- Inside one code length the values increase. -/
theorem listing_increasing (l : Nat) : (listing htable symbol order l).Pairwise (· < ·) :=
  List.pairwise_map.mpr (h.increasing.sublist List.filter_sublist)

/-- No value stands under two code lengths. -/
theorem listing_disjoint {l l' : Nat} {v : UInt8} (hv : v ∈ listing htable symbol order l)
    (hv' : v ∈ listing htable symbol order l') : l = l' := by
  obtain ⟨i, hi, hl, hsym⟩ := mem_listing.mp hv
  obtain ⟨i', hi', hl', hsym'⟩ := mem_listing.mp hv'
  have hii' := h.inj (h.mem_iff.mp hi) (h.mem_iff.mp hi') (hsym.trans hsym'.symm)
  rw [← hl, ← hl', hii']

/-- No value is listed twice. -/
theorem huffval_nodup : ((List.range 16).flatMap (listing htable symbol order)).Nodup := by
  refine List.pairwise_flatMap.mpr ⟨fun l _ => ?_, ?_⟩
  · exact (h.listing_increasing l).imp UInt8.ne_of_lt
  · refine List.nodup_range.imp fun hne v hv v' hv' heq => hne ?_
    exact h.listing_disjoint hv (heq ▸ hv')

/-- Not more values are listed than there are entries. -/
theorem length_huffval_le :
    ((List.range 16).flatMap (listing htable symbol order)).length ≤ n := by
  have hsub : (List.range 16).flatMap (listing htable symbol order) ⊆ order.map symbol := by
    intro v hv
    obtain ⟨l, -, hv⟩ := List.mem_flatMap.mp hv
    obtain ⟨i, hi, -, rfl⟩ := mem_listing.mp hv
    exact List.mem_map_of_mem hi
  have hle := (List.subperm_of_subset h.huffval_nodup hsub).length_le
  rwa [List.length_map, h.perm.length_eq, List.length_range] at hle

end SymbolOrder

/-- The table a reader finds behind the marker. -/
def readTable (htable : Nat → UInt32) (symbol : Nat → UInt8) (order : List Nat)
    (class_id : UInt8) : HuffmanTable where
  id := class_id
  bits := countsOf (listing htable symbol order) 0 16
  huffval := (List.range' 0 16).flatMap (listing htable symbol order)

theorem length_bits (class_id : UInt8) :
    (readTable htable symbol order class_id).bits.length = 16 := rfl

/-- The marker hands the code lengths of the first `n` entries of `htable` to a reader, who
finds the table `t`. -/
structure Transmits (htable : Nat → UInt32) (n : Nat) (symbol : Nat → UInt8) (class_id : UInt8)
    (m : Marker) (t : HuffmanTable) : Prop where
  segment : ∃ payload, walk m.bytes = some [⟨0xC4, payload⟩] ∧ HuffmanTable.read payload = some t
  id : t.id = class_id
  bits : t.bits.length = 16 ∧ ∀ l < 16, (t.bits.getD l 0).toNat =
    ((List.range n).filter fun i => (htable i >>> 8).toNat = l).length
  assigned : ∀ i < n, t.lengthOf (symbol i) =
    if (htable i >>> 8).toNat < 16 then some ((htable i >>> 8).toNat + 1) else none
  listed : ∀ v, v ∈ t.huffval ↔ ∃ i < n, (htable i >>> 8).toNat < 16 ∧ symbol i = v
  once : t.huffval.Nodup
  values : t.codes.map Prod.snd = t.huffval
  grouped : t.codes.Pairwise fun c c' => c.1 < c'.1 ∨ c.1 = c'.1 ∧ c.2 < c'.2
  length : ofBE (m.bytes.getD 2 0) (m.bytes.getD 3 0) = 19 + t.huffval.length
  ret : m.ret = m.bytes.length

namespace SymbolOrder

variable (h : SymbolOrder symbol order n) (class_id : UInt8)
include h

theorem counts_readTable : (List.range 16).map (fun l =>
    UInt8.ofNat ((List.range n).filter (Sweep.ofLength htable l)).length) =
      (readTable htable symbol order class_id).bits := by
  simp only [← h.length_listing]
  rfl

theorem segment_readTable : (huffmanMarker class_id
    (fun l => ((List.range n).filter (Sweep.ofLength htable l)).length)
      (listing htable symbol order)).segment =
    ⟨0xC4, class_id :: ((readTable htable symbol order class_id).bits ++
      (readTable htable symbol order class_id).huffval)⟩ := by
  rw [← h.counts_readTable class_id]
  simp only [Marker.segment, huffmanMarker, List.append_assoc]
  rfl

variable (hn : n < 256)
include hn

theorem codes_readTable : (readTable htable symbol order class_id).codes =
    (List.range' 0 16).flatMap fun l =>
      (listing htable symbol order l).map fun v => (l + 1, v) :=
  codesFrom_groups (fun l => Nat.lt_of_le_of_lt (h.length_listing_le l) hn) 0 16

theorem mem_codes {l : Nat} {v : UInt8} : (l, v) ∈ (readTable htable symbol order class_id).codes ↔
    ∃ i < n, (htable i >>> 8).toNat < 16 ∧ (htable i >>> 8).toNat + 1 = l ∧ symbol i = v := by
  rw [h.codes_readTable _ hn, List.mem_flatMap]
  constructor
  · rintro ⟨k, hk, hv⟩
    obtain ⟨w, hw, heq⟩ := List.mem_map.mp hv
    obtain ⟨i, hi, rfl, rfl⟩ := mem_listing.mp hw
    obtain ⟨rfl, rfl⟩ := Prod.mk.inj heq
    exact ⟨i, h.mem_iff.mp hi, by simpa using (List.mem_range'_1.mp hk).2, rfl, rfl⟩
  · rintro ⟨i, hi, hlt, rfl, rfl⟩
    refine ⟨(htable i >>> 8).toNat, List.mem_range'_1.mpr ⟨Nat.zero_le _, by omega⟩, ?_⟩
    exact List.mem_map.mpr ⟨symbol i, mem_listing.mpr ⟨i, h.mem_iff.mpr hi, rfl, rfl⟩, rfl⟩

theorem values_readTable : (readTable htable symbol order class_id).codes.map Prod.snd =
    (readTable htable symbol order class_id).huffval := by
  rw [h.codes_readTable _ hn, List.map_flatMap]
  simp only [List.map_map, Function.comp_def, List.map_id']
  rfl

theorem grouped_readTable : (readTable htable symbol order class_id).codes.Pairwise
    fun c c' => c.1 < c'.1 ∨ c.1 = c'.1 ∧ c.2 < c'.2 := by
  rw [h.codes_readTable _ hn]
  refine List.pairwise_flatMap.mpr ⟨fun l _ => ?_, ?_⟩
  · -- inside a code length
    exact List.pairwise_map.mpr
      ((h.listing_increasing l).imp fun hlt => Or.inr ⟨rfl, hlt⟩)
  · -- from one code length to a longer one
    refine (List.pairwise_lt_range' (s := 0)).imp fun {l l'} hlt c hc c' hc' => Or.inl ?_
    obtain ⟨v, -, rfl⟩ := List.mem_map.mp hc
    obtain ⟨v', -, rfl⟩ := List.mem_map.mp hc'
    exact Nat.succ_lt_succ hlt

theorem assigned_readTable {i : Nat} (hi : i < n) :
    (readTable htable symbol order class_id).lengthOf (symbol i) =
      if (htable i >>> 8).toNat < 16 then some ((htable i >>> 8).toNat + 1) else none := by
  split
  · next hlt =>
      refine HuffmanTable.lengthOf_of_mem ?_ ((h.mem_codes class_id hn).mpr ⟨i, hi, hlt, rfl, rfl⟩)
      rw [h.values_readTable _ hn]
      exact h.huffval_nodup
  · next hge =>
      refine HuffmanTable.lengthOf_of_not_mem fun l hl => hge ?_
      obtain ⟨j, hj, hlt, -, hsym⟩ := (h.mem_codes class_id hn).mp hl
      rwa [← h.inj hj hi hsym]

theorem listed_readTable (v : UInt8) : v ∈ (readTable htable symbol order class_id).huffval ↔
    ∃ i < n, (htable i >>> 8).toNat < 16 ∧ symbol i = v := by
  rw [← h.values_readTable _ hn, List.mem_map]
  constructor
  · rintro ⟨⟨l, w⟩, hc, rfl⟩
    obtain ⟨i, hi, hlt, -, hsym⟩ := (h.mem_codes class_id hn).mp hc
    exact ⟨i, hi, hlt, hsym⟩
  · rintro ⟨i, hi, hlt, rfl⟩
    exact ⟨(_, symbol i), (h.mem_codes class_id hn).mpr ⟨i, hi, hlt, rfl, rfl⟩, rfl⟩

/-- The reader walks over the segment and takes the table from it. -/
theorem read_readTable : ∃ payload, walk (huffmanMarker class_id
      (fun l => ((List.range n).filter (Sweep.ofLength htable l)).length)
        (listing htable symbol order)).bytes = some [⟨0xC4, payload⟩] ∧
    HuffmanTable.read payload = some (readTable htable symbol order class_id) := by
  have hfew : ((List.range 16).flatMap (listing htable symbol order)).length ≤ 256 :=
    Nat.le_trans h.length_huffval_le (Nat.le_of_lt hn)
  have hframed := framed_huffmanMarker class_id
    (fun l => ((List.range n).filter (Sweep.ofLength htable l)).length) hfew
  refine ⟨_, ?_, HuffmanTable.read_cons ?_ ?_⟩
  · rw [hframed.bytes, ← List.append_nil (Segment.bytes _), walk_cons hframed.fits, walk,
      h.segment_readTable]
    rfl
  · exact length_bits class_id
  · exact length_groups (fun l => Nat.lt_of_le_of_lt (h.length_listing_le l) hn) 0 16

/-- What a marker of this order hands to its reader. -/
theorem transmits : Transmits htable n symbol class_id
    (huffmanMarker class_id (fun l => ((List.range n).filter (Sweep.ofLength htable l)).length)
      (listing htable symbol order))
    (readTable htable symbol order class_id) where
  segment := h.read_readTable class_id hn
  id := rfl
  bits := by
    refine ⟨length_bits class_id, fun l hl => ?_⟩
    have hfew : ∀ l, (listing htable symbol order l).length < 256 :=
      fun l => Nat.lt_of_le_of_lt (h.length_listing_le l) hn
    have hget : (readTable htable symbol order class_id).bits.getD l 0 =
        UInt8.ofNat (listing htable symbol order l).length := by
      rw [readTable, countsOf, List.getD_eq_getElem?_getD, List.getElem?_map,
        List.getElem?_range' hl]
      simp
    rw [hget, toNat_count hfew, h.length_listing]
    rfl
  assigned i hi := h.assigned_readTable class_id hn hi
  listed := h.listed_readTable class_id hn
  once := h.huffval_nodup
  values := h.values_readTable class_id hn
  grouped := h.grouped_readTable class_id hn
  length := by
    have hle : ((List.range 16).flatMap (listing htable symbol order)).length ≤ n :=
      h.length_huffval_le
    exact ofBE_ofNat (n := 19 + ((List.range 16).flatMap (listing htable symbol order)).length)
      (by omega)
  ret := (exact_huffmanMarker _ _ _).symm

end SymbolOrder

end Reading

/-! ## Lossless -/

/-- **The Huffman tables go out without loss**, whatever the table: what the two writers
store is read back as the code lengths of its entries. -/
theorem huffman_transmitted (htable : Nat → UInt32) (class_id hole hole' : UInt8) :
    (∃ t, Transmits htable 162 acSymbol class_id
      (Sweep.DefineHuffmanTableMarkerAC htable class_id hole hole') t) ∧
    ∃ t, Transmits htable 12 UInt8.ofNat class_id
      (Sweep.DefineHuffmanTableMarkerDC htable class_id hole hole') t := by
  refine ⟨⟨readTable htable acSymbol acOrder class_id, ?_⟩,
    ⟨readTable htable UInt8.ofNat (List.range 12) class_id, ?_⟩⟩
  · rw [sweepAC_eq]
    exact acOrder_symbolOrder.transmits class_id (by omega)
  · rw [sweepDC_eq]
    exact dcOrder_symbolOrder.transmits class_id (by omega)

end NetCamera
