import Mathlib.Algebra.GroupWithZero.Nat

/-!
# JpegFormat

The marker segments of a baseline JPEG file, as a reader sees them.

A file starts with `FF D8`; a segment is `FF`, a code, a big-endian length that
counts itself, and a payload.  `segments` walks a header by these lengths and
fails unless it ends exactly behind a segment (`segments_bytes` reads back what
was written).  `Header.read` is what a decoder takes from one segment; it fails
on a payload that is not consumed exactly, and where a frame or a scan refers to
a table that no earlier segment has defined.
-/

namespace JpegFormat

/-! ## Segments -/

/-- Two bytes as a big-endian number. -/
def ofBE (h l : UInt8) : Nat := 256 * h.toNat + l.toNat

/-- A number as two big-endian bytes. -/
def toBE (n : Nat) : List UInt8 := [UInt8.ofNat (n / 256), UInt8.ofNat n]

theorem ofBE_ofNat {n : Nat} (h : n < 65536) :
    ofBE (UInt8.ofNat (n / 256)) (UInt8.ofNat n) = n := by
  simp only [ofBE, UInt8.toNat_ofNat']
  omega

/-- A marker segment. -/
structure Segment where
  code : UInt8
  payload : List UInt8
  deriving DecidableEq, Repr

namespace Segment

/-- A segment as it stands in a file. -/
def bytes (s : Segment) : List UInt8 :=
  [0xFF, s.code] ++ toBE (s.payload.length + 2) ++ s.payload

/-- The length of the segment fits its field. -/
def Fits (s : Segment) : Prop := s.payload.length + 2 < 65536

end Segment

/-- Walk from segment to segment by the length fields. -/
def walk : List UInt8 → Option (List Segment)
  | [] => some []
  | mark :: code :: h :: l :: rest =>
    if mark = 0xFF ∧ 2 ≤ ofBE h l ∧ ofBE h l - 2 ≤ rest.length then
      (walk (rest.drop (ofBE h l - 2))).map (⟨code, rest.take (ofBE h l - 2)⟩ :: ·)
    else none
  | _ => none
  termination_by bs => bs.length
  decreasing_by simp only [List.length_drop, List.length_cons]; omega

/-- The segments of a header that starts with `FF D8`. -/
def segments : List UInt8 → Option (List Segment)
  | soi :: soi' :: rest => if soi = 0xFF ∧ soi' = 0xD8 then walk rest else none
  | _ => none

/-- A segment in front is walked over. -/
theorem walk_cons {s : Segment} (hs : s.Fits) (rest : List UInt8) :
    walk (s.bytes ++ rest) = (walk rest).map (s :: ·) := by
  have hlen : ofBE (UInt8.ofNat ((s.payload.length + 2) / 256))
      (UInt8.ofNat (s.payload.length + 2)) - 2 = s.payload.length := by
    rw [ofBE_ofNat hs]
    omega
  have hbytes : s.bytes ++ rest = 0xFF :: s.code :: UInt8.ofNat ((s.payload.length + 2) / 256) ::
      UInt8.ofNat (s.payload.length + 2) :: (s.payload ++ rest) := rfl
  rw [hbytes, walk, if_pos, hlen, List.drop_left, List.take_left]
  refine ⟨rfl, ?_, ?_⟩
  · rw [ofBE_ofNat hs]
    omega
  · rw [hlen, List.length_append]
    omega

/-- **Segments are read back.** -/
theorem segments_bytes {ss : List Segment} (hss : ∀ s ∈ ss, s.Fits) :
    segments ([0xFF, 0xD8] ++ (ss.map Segment.bytes).flatten) = some ss := by
  have hwalk : walk (ss.map Segment.bytes).flatten = some ss := by
    induction ss with
    | nil => rw [List.map_nil, List.flatten_nil, walk]
    | cons s ss ih =>
        rw [List.map_cons, List.flatten_cons, walk_cons (hss s List.mem_cons_self),
          ih fun t ht => hss t (List.mem_cons_of_mem s ht)]
        rfl
  exact hwalk

/-! ## Tables -/

/-- The identifiers of the quantisation tables of a payload: of 8-bit precision, with 64
entries that are not zero. -/
def quantTables : List UInt8 → Option (List UInt8)
  | [] => some []
  | id :: rest =>
    if id < 4 ∧ 64 ≤ rest.length ∧ (rest.take 64).all (· != 0) then
      (quantTables (rest.drop 64)).map (id :: ·)
    else none
  termination_by bs => bs.length
  decreasing_by simp only [List.length_drop, List.length_cons]; omega

/-- The number of codes of all lengths. -/
def codeCount (counts : List UInt8) : Nat := (counts.map UInt8.toNat).sum

/-- The part of the 16-bit words that have one of the codes in front, by the counts of
the codes of `l` bits and more. -/
def codeSpace : Nat → List UInt8 → Nat
  | _, [] => 0
  | l, n :: ns => n.toNat * 2 ^ (16 - l) + codeSpace (l + 1) ns

/-- The counts are those of a prefix code that leaves the word of ones free. -/
def PrefixCode (counts : List UInt8) : Prop := codeSpace 1 counts < 2 ^ 16

instance (counts : List UInt8) : Decidable (PrefixCode counts) :=
  inferInstanceAs (Decidable (codeSpace 1 counts < 2 ^ 16))

/-- The classes and identifiers of the Huffman tables of a payload: 16 counts of a
prefix code, and as many values. -/
def huffmanTables : List UInt8 → Option (List UInt8)
  | [] => some []
  | id :: rest =>
    if 16 + codeCount (rest.take 16) ≤ rest.length ∧ PrefixCode (rest.take 16) then
      (huffmanTables (rest.drop (16 + codeCount (rest.take 16)))).map (id :: ·)
    else none
  termination_by bs => bs.length
  decreasing_by simp only [List.length_drop, List.length_cons]; omega

theorem quantTables_cons {id : UInt8} {tbl rest : List UInt8} (hid : id < 4)
    (hlen : tbl.length = 64) (htbl : ∀ q ∈ tbl, q ≠ 0) :
    quantTables (id :: (tbl ++ rest)) = (quantTables rest).map (id :: ·) := by
  have htake : (tbl ++ rest).take 64 = tbl := by rw [← hlen, List.take_left]
  have hdrop : (tbl ++ rest).drop 64 = rest := by rw [← hlen, List.drop_left]
  rw [quantTables, htake, hdrop, if_pos]
  refine ⟨hid, ?_, ?_⟩
  · rw [List.length_append]
    omega
  · simpa using htbl

theorem huffmanTables_single {id : UInt8} {counts vals : List UInt8} (hlen : counts.length = 16)
    (hvals : vals.length = codeCount counts) (hcode : PrefixCode counts) :
    huffmanTables (id :: (counts ++ vals)) = some [id] := by
  have htake : (counts ++ vals).take 16 = counts := by rw [← hlen, List.take_left]
  have hdrop : (counts ++ vals).drop (16 + codeCount counts) = [] := by
    rw [← hlen, ← hvals, ← List.length_append, List.drop_length]
  rw [huffmanTables, htake, hdrop, if_pos]
  · rw [huffmanTables]
    rfl
  · refine ⟨?_, hcode⟩
    rw [List.length_append]
    omega

/-! ## Quantisation values -/

/-- The cells of a diagonal of an 8x8 block, downwards, as natural positions. -/
def diagonal (d : Nat) : List Nat :=
  ((List.range 8).filter fun row => row ≤ d ∧ d - row < 8).map fun row => 8 * row + (d - row)

/-- The zigzag path: diagonal by diagonal, up the even ones and down the odd ones. -/
def scanOrder : List Nat :=
  (List.range 15).flatMap fun d => if d % 2 = 0 then (diagonal d).reverse else diagonal d

/-- Sixty-four values in zigzag order, put back in natural order. -/
def natural (zz : List UInt8) : List Nat :=
  (List.range 64).map fun i => (zz.getD (scanOrder.idxOf i) 0).toNat

/-- A quantisation table: its identifier and its entries in natural order. -/
structure QuantTable where
  id : UInt8
  entries : List Nat
  deriving DecidableEq, Repr

/-- The quantisation tables of a payload, as `quantTables` takes them. -/
def quantValues : List UInt8 → Option (List QuantTable)
  | [] => some []
  | id :: rest =>
    if id < 4 ∧ 64 ≤ rest.length ∧ (rest.take 64).all (· != 0) then
      (quantValues (rest.drop 64)).map (⟨id, natural (rest.take 64)⟩ :: ·)
    else none
  termination_by bs => bs.length
  decreasing_by simp only [List.length_drop, List.length_cons]; omega

/-- The quantisation tables of a file that is one segment. -/
def readQuant (bs : List UInt8) : Option (List QuantTable) :=
  match walk bs with
  | some [s] => if s.code = 0xDB then quantValues s.payload else none
  | _ => none

theorem quantValues_cons {id : UInt8} {tbl rest : List UInt8} (hid : id < 4)
    (hlen : tbl.length = 64) (htbl : ∀ q ∈ tbl, q ≠ 0) :
    quantValues (id :: (tbl ++ rest)) = (quantValues rest).map (⟨id, natural tbl⟩ :: ·) := by
  have htake : (tbl ++ rest).take 64 = tbl := by rw [← hlen, List.take_left]
  have hdrop : (tbl ++ rest).drop 64 = rest := by rw [← hlen, List.drop_left]
  rw [quantValues, htake, hdrop, if_pos]
  refine ⟨hid, ?_, ?_⟩
  · rw [List.length_append]
    omega
  · simpa using htbl

/-! ## Code lengths -/

/-- The code lengths that the counts give the values, from length `l` on. -/
def codesFrom : Nat → List UInt8 → List UInt8 → List (Nat × UInt8)
  | _, [], _ => []
  | l, n :: ns, vals =>
    (vals.take n.toNat).map (fun v => (l, v)) ++ codesFrom (l + 1) ns (vals.drop n.toNat)

/-- A Huffman table: its class and identifier, the counts `BITS` of the 16 code lengths and
the values `HUFFVAL`. -/
structure HuffmanTable where
  id : UInt8
  bits : List UInt8
  huffval : List UInt8
  deriving DecidableEq, Repr

namespace HuffmanTable

/-- The table of a payload that holds one. -/
def read : List UInt8 → Option HuffmanTable
  | [] => none
  | id :: rest =>
    if rest.length = 16 + codeCount (rest.take 16) then some ⟨id, rest.take 16, rest.drop 16⟩
    else none

/-- The values with their code lengths, in the order of the table. -/
def codes (t : HuffmanTable) : List (Nat × UInt8) := codesFrom 1 t.bits t.huffval

/-- The code length of a value. -/
def lengthOf (t : HuffmanTable) (v : UInt8) : Option Nat :=
  (t.codes.find? fun c => c.2 == v).map Prod.fst

theorem read_cons {id : UInt8} {bits huffval : List UInt8} (hbits : bits.length = 16)
    (hvals : huffval.length = codeCount bits) :
    read (id :: (bits ++ huffval)) = some ⟨id, bits, huffval⟩ := by
  have htake : (bits ++ huffval).take 16 = bits := by rw [← hbits, List.take_left]
  have hdrop : (bits ++ huffval).drop 16 = huffval := by rw [← hbits, List.drop_left]
  rw [read, htake, hdrop, if_pos]
  rw [List.length_append]
  omega

/-- Where no value stands twice, `lengthOf` finds every code. -/
theorem lengthOf_of_mem {t : HuffmanTable} (hnodup : (t.codes.map Prod.snd).Nodup) {l : Nat}
    {v : UInt8} (h : (l, v) ∈ t.codes) : t.lengthOf v = some l := by
  unfold lengthOf
  generalize t.codes = cs at hnodup h
  induction cs with
  | nil => cases h
  | cons c cs ih =>
      rw [List.map_cons, List.nodup_cons] at hnodup
      rcases List.mem_cons.mp h with rfl | h
      · simp
      · have hne : (c.2 == v) = false := by
          refine beq_eq_false_iff_ne.mpr fun hv => hnodup.1 (hv ▸ ?_)
          exact List.mem_map_of_mem (f := Prod.snd) h
        rw [List.find?_cons_of_neg (by simp [hne]), ih hnodup.2 h]

theorem lengthOf_of_not_mem {t : HuffmanTable} {v : UInt8} (h : ∀ l, (l, v) ∉ t.codes) :
    t.lengthOf v = none := by
  have hnone : t.codes.find? (fun c => c.2 == v) = none := by
    refine List.find?_eq_none.mpr fun c hc hv => h c.1 ?_
    rwa [← eq_of_beq hv]
  rw [lengthOf, hnone]
  rfl

end HuffmanTable

/-! ### Values written in groups -/

section Groups

-- the values of code length `l + 1`, for each `l`
variable {vals : Nat → List UInt8}

/-- The counts of the `n` code lengths from `k + 1` on. -/
def countsOf (vals : Nat → List UInt8) (k n : Nat) : List UInt8 :=
  (List.range' k n).map fun l => UInt8.ofNat (vals l).length

theorem toNat_count (hfew : ∀ l, (vals l).length < 256) (l : Nat) :
    (UInt8.ofNat (vals l).length).toNat = (vals l).length := by
  rw [UInt8.toNat_ofNat']
  exact Nat.mod_eq_of_lt (hfew l)

/-- Groups of values under their counts are read back with their code lengths. -/
theorem codesFrom_groups (hfew : ∀ l, (vals l).length < 256) (k n : Nat) :
    codesFrom (k + 1) (countsOf vals k n) ((List.range' k n).flatMap vals) =
      (List.range' k n).flatMap fun l => (vals l).map fun v => (l + 1, v) := by
  induction n generalizing k with
  | zero => rfl
  | succ n ih =>
      rw [countsOf, List.range'_succ, List.map_cons, List.flatMap_cons, List.flatMap_cons,
        codesFrom, toNat_count hfew, List.take_left, List.drop_left, ← ih (k + 1)]
      rfl

/-- As many values as the counts announce. -/
theorem length_groups (hfew : ∀ l, (vals l).length < 256) (k n : Nat) :
    ((List.range' k n).flatMap vals).length = codeCount (countsOf vals k n) := by
  induction n generalizing k with
  | zero => rfl
  | succ n ih =>
      have hsum : codeCount (countsOf vals k (n + 1)) =
          (vals k).length + codeCount (countsOf vals (k + 1) n) := by
        rw [countsOf, List.range'_succ, List.map_cons, codeCount, List.map_cons, List.sum_cons,
          toNat_count hfew]
        rfl
      rw [List.range'_succ, List.flatMap_cons, List.length_append, ih (k + 1), hsum]

end Groups

/-! ## Frames and scans -/

/-- A component of a frame: its identifier, its sampling factors and its quantisation
table. -/
structure Component where
  id : UInt8
  sampling : UInt8
  quant : UInt8
  deriving DecidableEq, Repr

def components : List UInt8 → Option (List Component)
  | [] => some []
  | id :: sampling :: quant :: rest => (components rest).map (⟨id, sampling, quant⟩ :: ·)
  | _ => none

structure Frame where
  height : Nat
  width : Nat
  comps : List Component
  deriving DecidableEq, Repr

/-- A frame of 8-bit samples. -/
def frame : List UInt8 → Option Frame
  | precision :: hh :: hl :: wh :: wl :: n :: rest =>
    if precision = 8 ∧ rest.length = 3 * n.toNat then
      (components rest).map fun comps => ⟨ofBE hh hl, ofBE wh wl, comps⟩
    else none
  | _ => none

/-- A component of a scan: its identifier and its two Huffman tables. -/
structure Selector where
  id : UInt8
  tables : UInt8
  deriving DecidableEq, Repr

/-- The table of the DC coefficients, as class and identifier. -/
def Selector.dc (s : Selector) : UInt8 := s.tables / 16

/-- The table of the AC coefficients, as class and identifier. -/
def Selector.ac (s : Selector) : UInt8 := 16 + s.tables % 16

def selectors : List UInt8 → Option (List Selector)
  | [] => some []
  | id :: tables :: rest => (selectors rest).map (⟨id, tables⟩ :: ·)
  | _ => none

/-- The components of a scan of all coefficients. -/
def scan : List UInt8 → Option (List Selector)
  | n :: rest =>
    if rest.drop (2 * n.toNat) = [0, 63, 0] then selectors (rest.take (2 * n.toNat)) else none
  | _ => none

/-! ## The decoder -/

/-- What a decoder knows: the tables defined, the frame and the restart interval, and
whether the scan has begun. -/
structure Header where
  quant : List UInt8 := []
  huffman : List UInt8 := []
  frame : Option Frame := none
  interval : Option Nat := none
  scanning : Bool := false
  deriving DecidableEq, Repr

namespace Header

/-- The component is one of the frame, and its tables are defined. -/
def Knows (d : Header) (s : Selector) : Prop :=
  (∃ f, d.frame = some f ∧ s.id ∈ f.comps.map Component.id) ∧
    s.dc ∈ d.huffman ∧ s.ac ∈ d.huffman

instance (d : Header) (s : Selector) : Decidable (d.Knows s) :=
  decidable_of_iff ((d.frame.any fun f => decide (s.id ∈ f.comps.map Component.id)) = true ∧
      s.dc ∈ d.huffman ∧ s.ac ∈ d.huffman)
    (by simp [Knows, Option.any_eq_true])

/-- The tables of a frame must be defined before it. -/
def readFrame (d : Header) (f : Frame) : Option Header :=
  if ∀ c ∈ f.comps, c.quant ∈ d.quant then some { d with frame := some f } else none

/-- The tables of a scan must be defined before it. -/
def readScan (d : Header) (comps : List Selector) : Option Header :=
  if ∀ s ∈ comps, d.Knows s then some { d with scanning := true } else none

/-- A restart interval. -/
def readInterval (d : Header) : List UInt8 → Option Header
  | [h, l] => some { d with interval := some (ofBE h l) }
  | _ => none

/-- Read one segment: tables, a frame, a restart interval, a scan, or application data. -/
def read (d : Header) (s : Segment) : Option Header :=
  if s.code = 0xDB then
    (quantTables s.payload).map fun ids => { d with quant := d.quant ++ ids }
  else if s.code = 0xC4 then
    (huffmanTables s.payload).map fun ids => { d with huffman := d.huffman ++ ids }
  else if s.code = 0xC0 then (JpegFormat.frame s.payload).bind d.readFrame
  else if s.code = 0xDD then d.readInterval s.payload
  else if s.code = 0xDA then (scan s.payload).bind d.readScan
  else if 0xE0 ≤ s.code ∧ s.code ≤ 0xEF then some d
  else none

/-- Read the segments of a header in order. -/
def readAll : Header → List Segment → Option Header
  | d, [] => some d
  | d, s :: ss => (d.read s).bind fun d' => readAll d' ss

theorem readAll_append (d : Header) (ss ts : List Segment) :
    readAll d (ss ++ ts) = (readAll d ss).bind fun d' => readAll d' ts := by
  induction ss generalizing d with
  | nil => rfl
  | cons s ss ih =>
      rw [List.cons_append, readAll, readAll]
      cases d.read s with
      | none => rfl
      | some d' => exact ih d'

end Header

end JpegFormat
