import NetCamera.Jpeg
import NetCamera.Lib.JpegFormat

/-!
# NetCamera.JpegWalk

The JPEG header as a decoder reads it.

Each marker writer stores one segment under a length field that is right
(`Marker.Framed`), so that a walk by the length fields gets from writer to writer.
What a decoder takes from each segment is a `read_*` lemma; together they say that
it gets through the header and finds the size and the interval it was made for
(`CreateJpegHeader_wellFormed`).
-/

namespace NetCamera

open JpegFormat

/-! ## One segment for each writer -/

/-- The segment a writer stores: its code, and what stands behind the length. -/
def Marker.segment (m : Marker) : Segment := ⟨m.bytes.getD 1 0, m.bytes.drop 4⟩

/-- The writer stores one segment, with its length in the length field. -/
structure Marker.Framed (m : Marker) : Prop where
  bytes : m.bytes = m.segment.bytes
  fits : m.segment.Fits

theorem framed_of_payload {m : Marker} {code : UInt8} {n : Nat} {payload : List UInt8}
    (hbytes : m.bytes = [0xFF, code] ++ be16 n ++ payload) (hlen : payload.length + 2 = n)
    (hn : n < 65536) : m.Framed := by
  have hsegment : m.segment = ⟨code, payload⟩ := by
    rw [Marker.segment, hbytes]
    rfl
  subst hlen
  exact ⟨by rw [hsegment, hbytes]; rfl, by rw [hsegment]; exact hn⟩

theorem framed_JfifApp0Marker : JfifApp0Marker.Framed :=
  framed_of_payload (n := 16) rfl rfl (by omega)

theorem framed_DefineQuantizationTableMarker (qscale : Int) (format : Format) :
    (DefineQuantizationTableMarker qscale format).Framed := by
  cases format
  case MONOCHROME =>
    exact framed_of_payload (n := 67) (List.append_assoc _ _ _)
      (by simp [length_scaleTable]) (by omega)
  all_goals
    refine framed_of_payload (n := 132) (by
      simp only [DefineQuantizationTableMarker, reduceCtorEq, if_false, List.append_assoc]
      rfl) (by simp [length_scaleTable]) (by omega)

theorem framed_FrameHeaderMarker (width height : Nat) (format : Format) :
    (FrameHeaderMarker width height format).Framed := by
  cases format
  case MONOCHROME => exact framed_of_payload (n := 11) rfl rfl (by omega)
  all_goals exact framed_of_payload (n := 17) rfl rfl (by omega)

theorem framed_huffmanMarker (class_id : UInt8) (counts : Nat → Nat) {vals : Nat → List UInt8}
    (h : ((List.range 16).flatMap vals).length ≤ 256) :
    (huffmanMarker class_id counts vals).Framed := by
  have hbytes : (huffmanMarker class_id counts vals).bytes =
      [0xFF, 0xC4] ++ be16 (19 + ((List.range 16).flatMap vals).length) ++
        (class_id :: ((List.range 16).map (fun l => UInt8.ofNat (counts l)) ++
          (List.range 16).flatMap vals)) := by
    simp only [huffmanMarker, List.append_assoc]
    rfl
  refine framed_of_payload hbytes ?_ (by omega)
  simp only [List.length_cons, List.length_append, List.length_map, List.length_range]
  omega

theorem framed_DefineRestartIntervalMarker (ri : Nat) : (DefineRestartIntervalMarker ri).Framed :=
  framed_of_payload (n := 4) rfl rfl (by omega)

theorem framed_ScanHeaderMarker (format : Format) : (ScanHeaderMarker format).Framed := by
  cases format
  case MONOCHROME => exact framed_of_payload (n := 8) rfl rfl (by omega)
  all_goals exact framed_of_payload (n := 12) rfl rfl (by omega)

/-! ## The quantisation tables -/

/-- Where the elements of a list come from into which `g i` was stored at `f i`. -/
theorem mem_foldl_set {α : Type} (f : Nat → Nat) (g : Nat → α) {is : List Nat} {xs : List α}
    {x : α} (h : x ∈ is.foldl (fun xs i => xs.set (f i) (g i)) xs) :
    (∃ i ∈ is, x = g i) ∨ ∃ j : Nat, xs[j]? = some x ∧ ∀ i ∈ is, f i ≠ j := by
  induction is generalizing xs with
  | nil =>
      obtain ⟨j, hj⟩ := List.mem_iff_getElem?.mp h
      exact Or.inr ⟨j, hj, fun _ hi => absurd hi List.not_mem_nil⟩
  | cons i is ih =>
      rcases ih h with ⟨k, hk, rfl⟩ | ⟨j, hj, hne⟩
      · exact Or.inl ⟨k, List.mem_cons_of_mem i hk, rfl⟩
      · rw [List.getElem?_set] at hj
        split at hj
        · -- stored at place `j` last
          split at hj
          · exact Or.inl ⟨i, List.mem_cons_self, (Option.some.inj hj).symm⟩
          · cases hj
        · next hij => exact Or.inr ⟨j, hj, List.forall_mem_cons.mpr ⟨hij, hne⟩⟩

theorem quantEntry_ne_zero (t : Nat) (qscale : Int) : quantEntry t qscale ≠ 0 := by
  have hlimit : ∀ v : Int, 1 ≤ v → v ≤ 255 → UInt8.ofInt v ≠ 0 := by
    intro v h1 h255 h0
    have hval := congrArg UInt8.toNat h0
    rw [UInt8.ofInt, UInt8.toNat_ofNat', UInt8.toNat_zero] at hval
    omega
  unfold quantEntry
  generalize ((t : Int) * qscale + 16).tdiv 32 = temp
  refine hlimit _ ?_ ?_
  · split <;> split <;> omega
  · split <;> split <;> omega

/-- Every place of a scaled table is stored to, and no entry is zero. -/
theorem scaleTable_ne_zero {tbl : List Nat} {qscale : Int} {newtbl : List UInt8}
    (hlen : newtbl.length = 64) : ∀ q ∈ scaleTable tbl qscale newtbl, q ≠ 0 := by
  intro q hq
  rcases mem_foldl_set (fun i => zigzag.getD i 0) (fun i => quantEntry (tbl.getD i 0) qscale) hq
    with ⟨i, -, rfl⟩ | ⟨j, hj, hne⟩
  · exact quantEntry_ne_zero _ _
  · have hall : ∀ j < 64, ∃ i ∈ List.range 64, zigzag.getD i 0 = j := by decide
    obtain ⟨hlt, -⟩ := List.getElem?_eq_some_iff.mp hj
    obtain ⟨i, hi, hij⟩ := hall j (hlen ▸ hlt)
    exact absurd hij (hne i hi)

/-! ## What a decoder reads -/

theorem read_JfifApp0Marker (d : Header) : d.read JfifApp0Marker.segment = some d := rfl

/-- The quantisation tables of a format. -/
def quantIds (format : Format) : List UInt8 := if format = .MONOCHROME then [0] else [0, 1]

theorem segment_DefineQuantizationTableMarker (qscale : Int) (format : Format) :
    (DefineQuantizationTableMarker qscale format).segment =
      ⟨0xDB, 0 :: (scaleTable JPEG_StdQuantTblY qscale (List.replicate 64 0) ++
        if format = .MONOCHROME then [] else 1 :: (scaleTable JPEG_StdQuantTblC qscale
          (scaleTable JPEG_StdQuantTblY qscale (List.replicate 64 0)) ++ []))⟩ := by
  simp only [DefineQuantizationTableMarker]
  generalize scaleTable JPEG_StdQuantTblY qscale (List.replicate 64 0) = tblY
  generalize scaleTable JPEG_StdQuantTblC qscale tblY = tblC
  cases format <;> simp [Marker.segment, be16]

theorem read_DefineQuantizationTableMarker (d : Header) (qscale : Int) (format : Format) :
    d.read (DefineQuantizationTableMarker qscale format).segment =
      some { d with quant := d.quant ++ quantIds format } := by
  have hlen : (scaleTable JPEG_StdQuantTblY qscale (List.replicate 64 0)).length = 64 := by
    rw [length_scaleTable, List.length_replicate]
  rw [segment_DefineQuantizationTableMarker, Header.read, if_pos rfl,
    quantTables_cons (by decide) hlen (scaleTable_ne_zero List.length_replicate), quantIds]
  split
  · rw [quantTables]
    rfl
  · rw [quantTables_cons (by decide) (by rw [length_scaleTable, hlen]) (scaleTable_ne_zero hlen),
      quantTables]
    rfl

/-- The components of the frame of a format. -/
def frameComponents : Format → List Component
  | .MONOCHROME => [⟨0, 0x11, 0⟩]
  | .YCBCR422 => [⟨0, 0x21, 0⟩, ⟨1, 0x11, 1⟩, ⟨2, 0x11, 1⟩]
  | .YCBCR420 => [⟨0, 0x22, 0⟩, ⟨1, 0x11, 1⟩, ⟨2, 0x11, 1⟩]

theorem read_FrameHeaderMarker {d : Header} {width height : Nat} {format : Format}
    (hwidth : width ≤ 65535) (hheight : height ≤ 65535) (hquant : d.quant = quantIds format) :
    d.read (FrameHeaderMarker width height format).segment =
      some { d with frame := some ⟨height, width, frameComponents format⟩ } := by
  have hframe : JpegFormat.frame (FrameHeaderMarker width height format).segment.payload =
      some ⟨height, width, frameComponents format⟩ := by
    cases format <;> simp [FrameHeaderMarker, Marker.segment, JpegFormat.frame, components, be16,
      frameComponents, ofBE_ofNat (show height < 65536 by omega),
      ofBE_ofNat (show width < 65536 by omega)]
  have hknown : ∀ c ∈ (frameComponents format), c.quant ∈ d.quant := by
    rw [hquant]
    cases format <;> decide
  rw [Header.read, show (FrameHeaderMarker width height format).segment.code = 0xC0 from rfl,
    hframe]
  simp only [Option.bind_some, Header.readFrame, if_pos hknown]
  rfl

/-- A Huffman segment that is complete: `n` values, as many as its counts `ns` announce, for
a prefix code. -/
structure Complete (counts : Nat → Nat) (vals : Nat → List UInt8) (ns : List UInt8) (n : Nat) :
    Prop where
  counts : (List.range 16).map (fun l => UInt8.ofNat (counts l)) = ns
  length : ((List.range 16).flatMap vals).length = n
  few : n ≤ 256
  count : codeCount ns = n
  prefixCode : PrefixCode ns

/-- The writer stores one Huffman table, of `n` values. -/
structure Marker.Defines (m : Marker) (class_id : UInt8) (n : Nat) : Prop where
  framed : m.Framed
  read : ∀ d : Header, d.read m.segment = some { d with huffman := d.huffman ++ [class_id] }
  ret : m.ret = 19 + n + 2

theorem defines_huffmanMarker {class_id : UInt8} {counts : Nat → Nat} {vals : Nat → List UInt8}
    (ns : List UInt8) {n : Nat} (h : Complete counts vals ns n) :
    (huffmanMarker class_id counts vals).Defines class_id n := by
  have hret : (huffmanMarker class_id counts vals).ret = 19 + n + 2 := by
    rw [huffmanMarker, h.length]
  refine ⟨framed_huffmanMarker class_id counts (h.length ▸ h.few), fun d => ?_, hret⟩
  have hpayload : (huffmanMarker class_id counts vals).segment =
      ⟨0xC4, class_id :: (ns ++ (List.range 16).flatMap vals)⟩ := by
    rw [← h.counts]
    simp only [Marker.segment, huffmanMarker, List.append_assoc]
    rfl
  have hlen : ns.length = 16 := by
    rw [← h.counts, List.length_map, List.length_range]
  rw [hpayload, Header.read, if_neg (show (0xC4 : UInt8) ≠ 0xDB by decide), if_pos rfl,
    huffmanTables_single hlen (h.length.trans h.count.symm) h.prefixCode]
  rfl

theorem defines_DC0 :
    (DefineHuffmanTableMarkerDC (JPEG_StdHuffmanTbl.drop 352) 0x00).Defines 0x00 12 :=
  defines_huffmanMarker [0, 1, 5, 1, 1, 1, 1, 1, 1, 0, 0, 0, 0, 0, 0, 0]
    ⟨by decide +kernel, by decide +kernel, by decide, by decide, by decide⟩

theorem defines_AC0 :
    (DefineHuffmanTableMarkerAC (JPEG_StdHuffmanTbl.drop 0) 0x10).Defines 0x10 162 :=
  defines_huffmanMarker [0, 2, 1, 3, 3, 2, 4, 3, 5, 5, 4, 4, 0, 0, 1, 125]
    ⟨by decide +kernel, by decide +kernel, by decide, by decide, by decide⟩

theorem defines_DC1 :
    (DefineHuffmanTableMarkerDC (JPEG_StdHuffmanTbl.drop 368) 0x01).Defines 0x01 12 :=
  defines_huffmanMarker [0, 3, 1, 1, 1, 1, 1, 1, 1, 1, 1, 0, 0, 0, 0, 0]
    ⟨by decide +kernel, by decide +kernel, by decide, by decide, by decide⟩

theorem defines_AC1 :
    (DefineHuffmanTableMarkerAC (JPEG_StdHuffmanTbl.drop 176) 0x11).Defines 0x11 162 :=
  defines_huffmanMarker [0, 2, 1, 2, 4, 4, 3, 4, 7, 5, 4, 4, 0, 1, 2, 119]
    ⟨by decide +kernel, by decide +kernel, by decide, by decide, by decide⟩

theorem read_DefineRestartIntervalMarker (d : Header) {ri : Nat} (hri : ri ≤ 65535) :
    d.read (DefineRestartIntervalMarker ri).segment = some { d with interval := some ri } := by
  have hvalue : d.read (DefineRestartIntervalMarker ri).segment =
      some { d with interval := some (ofBE (UInt8.ofNat (ri / 256)) (UInt8.ofNat ri)) } := rfl
  rw [hvalue, ofBE_ofNat (by omega)]

/-- The Huffman tables of a format, by class and identifier. -/
def huffmanIds (format : Format) : List UInt8 :=
  if format = .MONOCHROME then [0x00, 0x10] else [0x00, 0x10, 0x01, 0x11]

theorem read_ScanHeaderMarker {d : Header} {f : JpegFormat.Frame} {format : Format}
    (hframe : d.frame = some f) (hcomps : f.comps = frameComponents format)
    (hhuffman : d.huffman = huffmanIds format) :
    d.read (ScanHeaderMarker format).segment = some { d with scanning := true } := by
  have hscan : ∃ sels, scan (ScanHeaderMarker format).segment.payload = some sels ∧
      ∀ s ∈ sels, s.id ∈ (frameComponents format).map Component.id ∧
        s.dc ∈ huffmanIds format ∧ s.ac ∈ huffmanIds format := by
    cases format
    case MONOCHROME => exact ⟨[⟨0, 0⟩], rfl, by decide⟩
    all_goals exact ⟨[⟨0, 0⟩, ⟨1, 0x11⟩, ⟨2, 0x11⟩], rfl, by decide⟩
  obtain ⟨sels, hsels, hall⟩ := hscan
  have hknown : ∀ s ∈ sels, d.Knows s := by
    intro s hs
    obtain ⟨hid, hdc, hac⟩ := hall s hs
    exact ⟨⟨f, hframe, hcomps ▸ hid⟩, hhuffman ▸ hdc, hhuffman ▸ hac⟩
  rw [Header.read, show (ScanHeaderMarker format).segment.code = 0xDA from rfl, hsels]
  simp only [Option.bind_some, Header.readScan, if_pos hknown]
  rfl

/-! ## The header -/

theorem framed_jpegMarkers (width height : Nat) (format : Format) (restart_int : Nat)
    (qscale : Int) : ∀ m ∈ jpegMarkers width height format restart_int qscale, m.Framed := by
  intro m hm
  simp only [jpegMarkers, List.mem_append, List.mem_cons, List.not_mem_nil, or_false] at hm
  rcases hm with ((hm | hm) | hm) | hm
  · rcases hm with rfl | rfl | rfl | rfl | rfl
    · exact framed_JfifApp0Marker
    · exact framed_DefineQuantizationTableMarker _ _
    · exact framed_FrameHeaderMarker _ _ _
    · exact defines_DC0.framed
    · exact defines_AC0.framed
  · split at hm
    · cases hm
    · simp only [List.mem_cons, List.not_mem_nil, or_false] at hm
      rcases hm with rfl | rfl
      · exact defines_DC1.framed
      · exact defines_AC1.framed
  · split at hm
    · simp only [List.mem_cons, List.not_mem_nil, or_false] at hm
      subst hm
      exact framed_DefineRestartIntervalMarker _
    · cases hm
  · subst hm
    exact framed_ScanHeaderMarker format

/-- A walk by the length fields gets from writer to writer. -/
theorem segments_CreateJpegHeader (width height : Nat) (format : Format) (restart_int : Nat)
    (qscale : Int) : segments (CreateJpegHeader width height format restart_int qscale).bytes =
      some ((jpegMarkers width height format restart_int qscale).map Marker.segment) := by
  have hframed := framed_jpegMarkers width height format restart_int qscale
  have hbytes : (jpegMarkers width height format restart_int qscale).map Marker.bytes =
      ((jpegMarkers width height format restart_int qscale).map Marker.segment).map
        Segment.bytes := by
    rw [List.map_map]
    exact List.map_congr_left fun m hm => (hframed m hm).bytes
  rw [(CreateJpegHeader_eq _ _ _ _ _).1, hbytes]
  refine segments_bytes fun s hs => ?_
  obtain ⟨m, hm, rfl⟩ := List.mem_map.mp hs
  exact (hframed m hm).fits

/-- The codes of the segments. -/
theorem codes_jpegMarkers (width height : Nat) (format : Format) (restart_int : Nat)
    (qscale : Int) :
    ((jpegMarkers width height format restart_int qscale).map Marker.segment).map Segment.code =
      [0xE0, 0xDB, 0xC0] ++ (if format = .MONOCHROME then [0xC4, 0xC4]
        else [0xC4, 0xC4, 0xC4, 0xC4]) ++ (if restart_int > 0 then [0xDD] else []) ++ [0xDA] := by
  unfold jpegMarkers
  by_cases hpos : restart_int > 0 <;> simp only [hpos, if_true, if_false] <;> cases format <;> rfl

/-- The tables of the chroma components follow where there are any. -/
theorem readAll_chroma {d : Header} (format : Format) (hd : d.huffman = [0x00, 0x10]) :
    d.readAll ((if format = .MONOCHROME then []
      else [DefineHuffmanTableMarkerDC (JPEG_StdHuffmanTbl.drop 368) 0x01,
        DefineHuffmanTableMarkerAC (JPEG_StdHuffmanTbl.drop 176) 0x11]).map Marker.segment) =
      some { d with huffman := huffmanIds format } := by
  rw [huffmanIds, apply_ite (List.map Marker.segment)]
  split
  · rw [← hd]
    rfl
  · simp only [List.map_cons, List.map_nil, Header.readAll]
    rw [defines_DC1.read, Option.bind_some, defines_AC1.read]
    simp only [hd, Option.bind_some, List.append_assoc]
    rfl

/-- A restart interval is read where there is one. -/
theorem readAll_interval {d : Header} {restart_int : Nat} (hri : restart_int ≤ 65535)
    (hd : d.interval = none) :
    d.readAll ((if restart_int > 0 then [DefineRestartIntervalMarker restart_int]
      else []).map Marker.segment) =
      some { d with interval := if restart_int > 0 then some restart_int else none } := by
  split
  · simp only [List.map_cons, List.map_nil, Header.readAll]
    rw [read_DefineRestartIntervalMarker d hri]
    rfl
  · rw [← hd]
    rfl

/-- What a decoder knows behind the header. -/
theorem readAll_jpegMarkers {width height restart_int : Nat} (format : Format) (qscale : Int)
    (hwidth : width ≤ 65535) (hheight : height ≤ 65535) (hri : restart_int ≤ 65535) :
    Header.readAll {} ((jpegMarkers width height format restart_int qscale).map Marker.segment) =
      some { quant := quantIds format, huffman := huffmanIds format
             frame := some ⟨height, width, frameComponents format⟩
             interval := if restart_int > 0 then some restart_int else none
             scanning := true } := by
  have hfront : Header.readAll {} ([JfifApp0Marker, DefineQuantizationTableMarker qscale format,
      FrameHeaderMarker width height format,
      DefineHuffmanTableMarkerDC (JPEG_StdHuffmanTbl.drop 352) 0x00,
      DefineHuffmanTableMarkerAC (JPEG_StdHuffmanTbl.drop 0) 0x10].map Marker.segment) =
      some { quant := quantIds format, huffman := [0x00, 0x10]
             frame := some ⟨height, width, frameComponents format⟩ } := by
    simp only [List.map_cons, List.map_nil, Header.readAll]
    rw [read_JfifApp0Marker, Option.bind_some, read_DefineQuantizationTableMarker,
      Option.bind_some, read_FrameHeaderMarker hwidth hheight (List.nil_append _),
      Option.bind_some, defines_DC0.read, Option.bind_some, defines_AC0.read]
    rfl
  have hscan : ∀ d : Header, d.frame = some ⟨height, width, frameComponents format⟩ →
      d.huffman = huffmanIds format →
      d.readAll ([ScanHeaderMarker format].map Marker.segment) =
        some { d with scanning := true } := by
    intro d hframe hhuffman
    simp only [List.map_cons, List.map_nil, Header.readAll]
    rw [read_ScanHeaderMarker hframe rfl hhuffman]
    rfl
  rw [jpegMarkers, List.map_append, List.map_append, List.map_append, Header.readAll_append,
    Header.readAll_append, Header.readAll_append, hfront, Option.bind_some,
    readAll_chroma format rfl, Option.bind_some, readAll_interval hri rfl, Option.bind_some,
    hscan _ rfl rfl]

/-- A decoder finds the size the header was made for. -/
theorem readSize_CreateJpegHeader {width height restart_int : Nat} (format : Format) (qscale : Int)
    (hwidth : width ≤ 65535) (hheight : height ≤ 65535) (hri : restart_int ≤ 65535) :
    ∃ ss d, segments (CreateJpegHeader width height format restart_int qscale).bytes = some ss ∧
      Header.readAll {} ss = some d ∧
      d.frame.map (fun f => (f.height, f.width)) = some (height, width) :=
  ⟨_, _, segments_CreateJpegHeader _ _ _ _ _,
    readAll_jpegMarkers format qscale hwidth hheight hri, rfl⟩

/-- The length returned is the sum of what the writers return. -/
theorem foldl_putMarker_ret (ms : List Marker) (h : Marker) :
    (ms.foldl putMarker h).ret = h.ret + (ms.map Marker.ret).sum := by
  induction ms generalizing h with
  | nil => rfl
  | cons m ms ih =>
      rw [List.foldl_cons, ih, List.map_cons, List.sum_cons, putMarker, Nat.add_assoc]

/-- The header fits into `g_header`. -/
theorem ret_CreateJpegHeader_le (width height : Nat) (format : Format) (restart_int : Nat)
    (qscale : Int) : (CreateJpegHeader width height format restart_int qscale).ret ≤ 1024 := by
  have hDQT : (DefineQuantizationTableMarker qscale format).ret ≤ 134 := by
    cases format <;> exact Nat.le_of_ble_eq_true rfl
  have hSOF : (FrameHeaderMarker width height format).ret ≤ 19 := by
    cases format <;> exact Nat.le_of_ble_eq_true rfl
  have hSOS : (ScanHeaderMarker format).ret ≤ 14 := by
    cases format <;> exact Nat.le_of_ble_eq_true rfl
  have hAPP0 : JfifApp0Marker.ret = 18 := rfl
  have hDRI : (DefineRestartIntervalMarker restart_int).ret = 6 := rfl
  rw [CreateJpegHeader, foldl_putMarker_ret, jpegMarkers]
  by_cases hmono : format = .MONOCHROME <;> by_cases hpos : restart_int > 0 <;>
    simp only [hmono, hpos, if_true, if_false, List.map_append, List.map_cons, List.map_nil,
      List.sum_append, List.sum_cons, List.sum_nil, defines_DC0.ret, defines_AC0.ret,
      defines_DC1.ret, defines_AC1.ret, hAPP0, hDRI] at * <;>
    omega

/-- **A well-formed header**: a decoder that walks the header by the length fields finds
its segments in order up to exactly the returned length, reads back height, width
and interval, and finds every table a frame or a scan refers to defined. -/
theorem CreateJpegHeader_wellFormed {width height restart_int : Nat} (format : Format)
    (qscale : Int) (hwidth : width ≤ 65535) (hheight : height ≤ 65535)
    (hri : restart_int ≤ 65535) :
    (CreateJpegHeader width height format restart_int qscale).bytes.length =
      (CreateJpegHeader width height format restart_int qscale).ret ∧
    (CreateJpegHeader width height format restart_int qscale).ret ≤ 1024 ∧
    ∃ ss d, segments (CreateJpegHeader width height format restart_int qscale).bytes = some ss ∧
      ss.map Segment.code = [0xE0, 0xDB, 0xC0] ++
        (if format = .MONOCHROME then [0xC4, 0xC4] else [0xC4, 0xC4, 0xC4, 0xC4]) ++
        (if restart_int > 0 then [0xDD] else []) ++ [0xDA] ∧
      Header.readAll {} ss = some d ∧
      d.frame.map (fun f => (f.height, f.width)) = some (height, width) ∧
      d.interval = (if restart_int > 0 then some restart_int else none) ∧ d.scanning = true :=
  ⟨(CreateJpegHeader_eq _ _ _ _ _).2, ret_CreateJpegHeader_le _ _ _ _ _, _, _,
    segments_CreateJpegHeader _ _ _ _ _, codes_jpegMarkers _ _ _ _ _,
    readAll_jpegMarkers format qscale hwidth hheight hri, rfl, rfl, rfl⟩

/-- The header the camera makes for VGA images. -/
theorem CreateJpegHeader_wellFormed_vga : ∃ ss d,
    segments (CreateJpegHeader 640 480 .YCBCR422 32 9).bytes = some ss ∧
      ss.map Segment.code = [0xE0, 0xDB, 0xC0, 0xC4, 0xC4, 0xC4, 0xC4, 0xDD, 0xDA] ∧
      Header.readAll {} ss = some d ∧
      d.frame.map (fun f => (f.height, f.width)) = some (480, 640) ∧ d.interval = some 32 := by
  obtain ⟨-, -, ss, d, hwalk, hcodes, hread, hsize, hinterval, -⟩ :=
    CreateJpegHeader_wellFormed .YCBCR422 9 (show 640 ≤ 65535 by omega)
      (show 480 ≤ 65535 by omega) (show 32 ≤ 65535 by omega)
  exact ⟨ss, d, hwalk, hcodes, hread, hsize, hinterval⟩

end NetCamera
