import Mathlib.Data.List.Forall2
import NetCamera.JpegWalk
import NetCamera.Lib.Buf

/-!
# NetCamera.JpegQuant

Quantisation tables are the scaled standard tables.

`DefineQuantizationTableMarker` scatters 64 scaled entries through `zigzag` into a
scratch array on the stack and copies the array out.  The loop is written out here
over any contents of the stack, with the places it stores to and with the signed
arithmetic that is undefined where it overflows.  As `zigzag` is a permutation
(`zigzag_perm`), each place is stored to once and the stack does not show; a reader
who follows the zigzag path finds the scaled entries in natural order, and they do
not fall as the scale rises (`quant_decodes`).
-/

namespace NetCamera

open JpegFormat

/-! ## The loops -/

namespace Sweep

/-- A signed result; outside 32 bits it is undefined. -/
def int (v : Int) : Option Int :=
  if -2147483648 ≤ v ∧ v ≤ 2147483647 then some v else none

/-- The scratch array and the places of it that were stored to, in order. -/
structure Scratch where
  newtbl : List UInt8
  stores : List Nat

/-- One entry: scale it, limit it, store it. -/
def scaleEntry (tbl : List Nat) (qscale : Int) (s : Scratch) (i : Nat) : Option Scratch := do
  let prod ← int (tbl.getD i 0 * qscale)
  let sum ← int (prod + 16)
  let temp := sum.tdiv 32
  let temp := if temp ≤ 0 then 1 else temp
  let temp := if temp > 255 then 255 else temp
  some { newtbl := s.newtbl.set (zigzag.getD i 0) (UInt8.ofInt temp)
         stores := s.stores ++ [zigzag.getD i 0] }

/-- The loop over the 64 entries of a table. -/
def scale (tbl : List Nat) (qscale : Int) (newtbl : List UInt8) : Option Scratch :=
  (List.range 64).foldlM (scaleEntry tbl qscale) { newtbl := newtbl, stores := [] }

/-- `*pbuf++ = newtbl[i]` for all 64. -/
def copyOut (newtbl : List UInt8) : List UInt8 := (List.range 64).map fun i => newtbl.getD i 0

/-- The marker, and for each table the places of the scratch array stored to. -/
structure Quant where
  marker : Marker
  stores : List (List Nat)

/-- `stack` is what the scratch array holds at the start. -/
def DefineQuantizationTableMarker (stack : Buf UInt8 64) (qscale : Int) (format : Format) :
    Option Quant := do
  let length := if format = .MONOCHROME then 67 else 132
  let y ← scale JPEG_StdQuantTblY qscale stack.elems
  let front := [0xFF, 0xDB] ++ be16 length ++ [0] ++ copyOut y.newtbl
  if format = .MONOCHROME then
    some { marker := { bytes := front, ret := length + 2 }, stores := [y.stores] }
  else
    let c ← scale JPEG_StdQuantTblC qscale y.newtbl
    some { marker := { bytes := front ++ [1] ++ copyOut c.newtbl, ret := length + 2 },
           stores := [y.stores, c.stores] }

end Sweep

/-! ## One table -/

/-- The product with each entry, and the sum with 16, is an `int`. -/
def Fits (tbl : List Nat) (qscale : Int) : Prop :=
  ∀ t ∈ tbl, -2147483648 ≤ t * qscale ∧ t * qscale + 16 ≤ 2147483647

/-- Under `Fits` the loop stores every entry where `zigzag` says. -/
theorem scale_eq {tbl : List Nat} {qscale : Int} (h : Fits tbl qscale) (hlen : tbl.length = 64)
    (newtbl : List UInt8) : Sweep.scale tbl qscale newtbl =
      some { newtbl := scaleTable tbl qscale newtbl,
             stores := (List.range 64).map fun i => zigzag.getD i 0 } := by
  have hentry : ∀ i < 64, ∀ s : Sweep.Scratch, Sweep.scaleEntry tbl qscale s i =
      some { newtbl := s.newtbl.set (zigzag.getD i 0) (quantEntry (tbl.getD i 0) qscale),
             stores := s.stores ++ [zigzag.getD i 0] } := by
    intro i hi s
    have hmem : tbl.getD i 0 ∈ tbl := by
      rw [List.getD_eq_getElem?_getD, List.getElem?_eq_getElem (hlen ▸ hi), Option.getD_some]
      exact List.getElem_mem _
    have hfit := h _ hmem
    simp only [Sweep.scaleEntry, Sweep.int, Option.bind_eq_bind]
    rw [if_pos (by omega), Option.bind_some, if_pos (by omega), Option.bind_some]
    rfl
  have hfold : ∀ (is : List Nat), (∀ i ∈ is, i < 64) → ∀ s : Sweep.Scratch,
      is.foldlM (Sweep.scaleEntry tbl qscale) s =
        some { newtbl := is.foldl (fun newtbl i =>
                newtbl.set (zigzag.getD i 0) (quantEntry (tbl.getD i 0) qscale)) s.newtbl,
               stores := s.stores ++ is.map fun i => zigzag.getD i 0 } := by
    intro is
    induction is with
    | nil => intro _ s; simp
    | cons i is ih =>
        intro his s
        rw [List.foldlM_cons, hentry i (his i List.mem_cons_self), Option.bind_eq_bind,
          Option.bind_some, ih fun j hj => his j (List.mem_cons_of_mem i hj)]
        simp
  rw [Sweep.scale, hfold _ fun i => List.mem_range.mp]
  rfl

/-- `zigzag` is a permutation, so no place is left as the stack had it. -/
theorem zigzag_perm : ((List.range 64).map fun i => zigzag.getD i 0).Perm (List.range 64) := by
  decide +kernel

/-- `zigzag` leads from each natural position to its place on the zigzag path. -/
theorem idxOf_scanOrder : ∀ i < 64, scanOrder.idxOf i = zigzag.getD i 0 := by decide +kernel

/-- A place that is not stored to keeps its element. -/
theorem getElem?_foldl_set_of_not_mem {α : Type} {f : Nat → Nat} (g : Nat → α) {is : List Nat}
    {j : Nat} (hj : j ∉ is.map f) (xs : List α) :
    (is.foldl (fun xs i => xs.set (f i) (g i)) xs)[j]? = xs[j]? := by
  induction is generalizing xs with
  | nil => rfl
  | cons i is ih =>
      rw [List.map_cons, List.mem_cons, not_or] at hj
      rw [List.foldl_cons, ih hj.2, List.getElem?_set_ne (Ne.symm hj.1)]

/-- Stores to different places are all there at the end. -/
theorem getElem?_foldl_set {α : Type} {f : Nat → Nat} (g : Nat → α) {is : List Nat}
    (hnodup : (is.map f).Nodup) {i : Nat} (hi : i ∈ is) {xs : List α} (hlt : f i < xs.length) :
    (is.foldl (fun xs i => xs.set (f i) (g i)) xs)[f i]? = some (g i) := by
  induction is generalizing xs with
  | nil => cases hi
  | cons k is ih =>
      rw [List.map_cons, List.nodup_cons] at hnodup
      rw [List.foldl_cons]
      rcases List.mem_cons.mp hi with rfl | hi
      · rw [getElem?_foldl_set_of_not_mem g hnodup.1, List.getElem?_set_self hlt]
      · exact ih hnodup.2 hi (by rwa [List.length_set])

/-- An entry of the scaled table: rounded, and limited to 1..255. -/
def scaledEntry (t : Nat) (qscale : Int) : Nat :=
  (max 1 (min 255 (((t : Int) * qscale + 16).tdiv 32))).toNat

theorem toNat_quantEntry (t : Nat) (qscale : Int) :
    (quantEntry t qscale).toNat = scaledEntry t qscale := by
  unfold quantEntry scaledEntry
  generalize ((t : Int) * qscale + 16).tdiv 32 = temp
  have hlimit : ∀ v : Int, 1 ≤ v → v ≤ 255 → (UInt8.ofInt v).toNat = v.toNat := by
    intro v h1 h255
    rw [UInt8.ofInt, UInt8.toNat_ofNat']
    omega
  rw [hlimit _ (by split <;> split <;> omega) (by split <;> split <;> omega)]
  split <;> split <;> omega

theorem scaledEntry_mono (t : Nat) {q q' : Int} (h : q ≤ q') :
    scaledEntry t q ≤ scaledEntry t q' := by
  have hmul : (t : Int) * q + 16 ≤ (t : Int) * q' + 16 :=
    Int.add_le_add_right (Int.mul_le_mul_of_nonneg_left h (Int.natCast_nonneg t)) 16
  have hdiv := Int.tdiv_le_tdiv (show (0 : Int) < 32 by omega) hmul
  unfold scaledEntry
  omega

/-- The entries of a scaled table at their natural positions. -/
def scaledEntries (tbl : List Nat) (qscale : Int) : List Nat :=
  (List.range 64).map fun i => scaledEntry (tbl.getD i 0) qscale

/-- Each place of the zigzag path holds the scaled entry of its natural position. -/
theorem getElem?_scaleTable (tbl : List Nat) (qscale : Int) {newtbl : List UInt8}
    (hlen : newtbl.length = 64) {i : Nat} (hi : i ∈ List.range 64) :
    (scaleTable tbl qscale newtbl)[zigzag.getD i 0]? = some (quantEntry (tbl.getD i 0) qscale) := by
  have hplace : zigzag.getD i 0 < newtbl.length := by
    rw [hlen]
    exact List.mem_range.mp (zigzag_perm.mem_iff.mp (List.mem_map_of_mem hi))
  exact getElem?_foldl_set (f := fun i => zigzag.getD i 0)
    (fun i => quantEntry (tbl.getD i 0) qscale) (zigzag_perm.nodup_iff.mpr List.nodup_range)
    hi hplace

/-- The stack does not show in a scaled table. -/
theorem scaleTable_stack (tbl : List Nat) (qscale : Int) {newtbl newtbl' : List UInt8}
    (hlen : newtbl.length = 64) (hlen' : newtbl'.length = 64) :
    scaleTable tbl qscale newtbl = scaleTable tbl qscale newtbl' := by
  refine List.ext_getElem? fun j => ?_
  by_cases hj : j < 64
  · obtain ⟨i, hi, rfl⟩ := List.mem_map.mp (zigzag_perm.mem_iff.mpr (List.mem_range.mpr hj))
    rw [getElem?_scaleTable tbl qscale hlen hi, getElem?_scaleTable tbl qscale hlen' hi]
  · have hnone : ∀ t : List UInt8, t.length = 64 → (scaleTable tbl qscale t)[j]? = none := by
      intro t ht
      rw [List.getElem?_eq_none_iff, length_scaleTable]
      omega
    rw [hnone _ hlen, hnone _ hlen']

/-- Back in natural order the scaled table holds the scaled entries. -/
theorem natural_scaleTable (tbl : List Nat) (qscale : Int) {newtbl : List UInt8}
    (hlen : newtbl.length = 64) :
    natural (scaleTable tbl qscale newtbl) = scaledEntries tbl qscale := by
  refine List.map_congr_left fun i hi => ?_
  rw [idxOf_scanOrder i (List.mem_range.mp hi), List.getD_eq_getElem?_getD,
    getElem?_scaleTable tbl qscale hlen hi, Option.getD_some, toNat_quantEntry]

/-! ## The segment -/

/-- The standard tables a format sends, with their identifiers. -/
def quantSources (format : Format) : List (UInt8 × List Nat) :=
  if format = .MONOCHROME then [(0, JPEG_StdQuantTblY)]
  else [(0, JPEG_StdQuantTblY), (1, JPEG_StdQuantTblC)]

theorem luminance_mem (format : Format) : (0, JPEG_StdQuantTblY) ∈ quantSources format := by
  unfold quantSources
  split <;> exact List.mem_cons_self

theorem chrominance_mem {format : Format} (h : format ≠ .MONOCHROME) :
    (1, JPEG_StdQuantTblC) ∈ quantSources format := by
  rw [quantSources, if_neg h]
  exact List.mem_cons_of_mem _ List.mem_cons_self

/-- No product or sum of the loops overflows. -/
def ProductsFit (qscale : Int) (format : Format) : Prop :=
  ∀ src ∈ quantSources format, Fits src.2 qscale

instance (qscale : Int) (format : Format) : Decidable (ProductsFit qscale format) :=
  inferInstanceAs (Decidable (∀ src ∈ quantSources format, ∀ t ∈ src.2,
    -2147483648 ≤ t * qscale ∧ t * qscale + 16 ≤ 2147483647))

/-- The scaled standard tables. -/
def scaledTables (qscale : Int) (format : Format) : List QuantTable :=
  (quantSources format).map fun src => ⟨src.1, scaledEntries src.2 qscale⟩

/-- The segment is that of the header, whatever the stack held: no place of the scratch array
is left out. -/
structure QuantOk (qscale : Int) (format : Format) (r : Sweep.Quant) : Prop where
  read : readQuant r.marker.bytes = some (scaledTables qscale format)
  once : r.stores.length = (quantSources format).length ∧
    ∀ stores ∈ r.stores, stores.Perm (List.range 64)
  ret : r.marker.ret = r.marker.bytes.length

/-- The same table, with no entry above the other's. -/
def AtMost (t t' : QuantTable) : Prop := t.id = t'.id ∧ List.Forall₂ (· ≤ ·) t.entries t'.entries

theorem copyOut_eq {newtbl : List UInt8} (hlen : newtbl.length = 64) :
    Sweep.copyOut newtbl = newtbl := by
  refine List.ext_getElem (by simp [Sweep.copyOut, hlen]) fun i hi hi' => ?_
  simp [Sweep.copyOut, List.getD_eq_getElem?_getD, List.getElem?_eq_getElem hi']

theorem scaledTables_mono {qscale qscale' : Int} (h : qscale ≤ qscale') (format : Format) :
    List.Forall₂ AtMost (scaledTables qscale format) (scaledTables qscale' format) := by
  have hentries : ∀ tbl : List Nat,
      List.Forall₂ (· ≤ ·) (scaledEntries tbl qscale) (scaledEntries tbl qscale') := by
    intro tbl
    unfold scaledEntries
    rw [List.forall₂_map_left_iff, List.forall₂_map_right_iff]
    exact List.forall₂_same.mpr fun i _ => scaledEntry_mono _ h
  unfold scaledTables
  rw [List.forall₂_map_left_iff, List.forall₂_map_right_iff]
  exact List.forall₂_same.mpr fun src _ => ⟨rfl, hentries src.2⟩

/-- The places the loop stores to for each table of a format. -/
def quantStores (format : Format) : List (List Nat) :=
  (quantSources format).map fun _ => (List.range 64).map fun i => zigzag.getD i 0

/-- The loops write the marker of the header, whatever the stack holds. -/
theorem sweepQuant_eq (stack : Buf UInt8 64) {qscale : Int} {format : Format}
    (h : ProductsFit qscale format) :
    Sweep.DefineQuantizationTableMarker stack qscale format =
      some { marker := DefineQuantizationTableMarker qscale format,
             stores := quantStores format } := by
  have hstack := scaleTable_stack JPEG_StdQuantTblY qscale stack.length_elems
    (List.length_replicate (n := 64) (a := 0))
  have hlenY : (scaleTable JPEG_StdQuantTblY qscale (List.replicate 64 0)).length = 64 := by
    rw [length_scaleTable, List.length_replicate]
  have hlenC : (scaleTable JPEG_StdQuantTblC qscale
      (scaleTable JPEG_StdQuantTblY qscale (List.replicate 64 0))).length = 64 := by
    rw [length_scaleTable, hlenY]
  unfold Sweep.DefineQuantizationTableMarker DefineQuantizationTableMarker quantStores
  have hY : Fits JPEG_StdQuantTblY qscale := h _ (luminance_mem format)
  by_cases hformat : format = .MONOCHROME
  · simp only [scale_eq hY rfl, Option.bind_eq_bind, Option.bind_some, hstack, copyOut_eq hlenY,
      if_pos hformat, quantSources, List.map_cons, List.map_nil]
  · have hC : Fits JPEG_StdQuantTblC qscale := h _ (chrominance_mem hformat)
    simp only [scale_eq hY rfl, scale_eq hC rfl, Option.bind_eq_bind, Option.bind_some, hstack,
      copyOut_eq hlenY, copyOut_eq hlenC, if_neg hformat, quantSources, List.map_cons,
      List.map_nil]

/-- A reader finds the scaled standard tables in the marker. -/
theorem readQuant_DefineQuantizationTableMarker (qscale : Int) (format : Format) :
    readQuant (DefineQuantizationTableMarker qscale format).bytes =
      some (scaledTables qscale format) := by
  have hlen : (scaleTable JPEG_StdQuantTblY qscale (List.replicate 64 0)).length = 64 := by
    rw [length_scaleTable, List.length_replicate]
  have hframed := framed_DefineQuantizationTableMarker qscale format
  have hwalk : readQuant (DefineQuantizationTableMarker qscale format).bytes =
      quantValues (DefineQuantizationTableMarker qscale format).segment.payload := by
    rw [readQuant, hframed.bytes, ← List.append_nil (Segment.bytes _), walk_cons hframed.fits,
      walk, segment_DefineQuantizationTableMarker]
    rfl
  rw [hwalk, segment_DefineQuantizationTableMarker, quantValues_cons (by decide) hlen
    (scaleTable_ne_zero List.length_replicate), natural_scaleTable _ _ List.length_replicate,
    scaledTables, quantSources]
  split
  · rw [quantValues]
    rfl
  · rw [quantValues_cons (by decide) (by rw [length_scaleTable, hlen]) (scaleTable_ne_zero hlen),
      natural_scaleTable _ _ hlen, quantValues]
    rfl

/-! ## The tables decode -/

/-- **The quantisation tables decode to the scaled standard tables**, for every scale whose
products are in range and whatever the stack holds; each place of the scratch array is stored to
once, and a larger scale gives no smaller entry. -/
theorem quant_decodes (stack : Buf UInt8 64) {qscale : Int} {format : Format}
    (h : ProductsFit qscale format) :
    ∃ r, Sweep.DefineQuantizationTableMarker stack qscale format = some r ∧
      QuantOk qscale format r ∧
      ∀ (stack' : Buf UInt8 64) (qscale' : Int), qscale ≤ qscale' → ProductsFit qscale' format →
        ∃ r' ts ts', Sweep.DefineQuantizationTableMarker stack' qscale' format = some r' ∧
          readQuant r.marker.bytes = some ts ∧ readQuant r'.marker.bytes = some ts' ∧
          List.Forall₂ AtMost ts ts' := by
  have hread := readQuant_DefineQuantizationTableMarker qscale format
  refine ⟨_, sweepQuant_eq stack h, ⟨hread, ⟨List.length_map _, ?_⟩, ?_⟩, ?_⟩
  · intro stores hstores
    obtain ⟨_, -, rfl⟩ := List.mem_map.mp hstores
    exact zigzag_perm
  · exact (exact_DefineQuantizationTableMarker qscale format).symm
  · intro stack' qscale' hle h'
    exact ⟨_, _, _, sweepQuant_eq stack' h', hread,
      readQuant_DefineQuantizationTableMarker qscale' format, scaledTables_mono hle format⟩

/-- The scale of the firmware is in range. -/
theorem quant_decodes_nine : ProductsFit 9 .YCBCR422 ∧
    ∃ r, Sweep.DefineQuantizationTableMarker (Buf.fill 64 0xA5) 9 .YCBCR422 = some r ∧
      QuantOk 9 .YCBCR422 r :=
  have hfit : ProductsFit 9 .YCBCR422 := by decide +kernel
  ⟨hfit, (quant_decodes (Buf.fill 64 0xA5) hfit).imp fun _ h => ⟨h.1, h.2.1⟩⟩

end NetCamera
