/-!
# NetCamera.Jpeg

The JPEG header in front of each image: `CreateJpegHeader` and the marker
writers it calls.

A writer stores bytes at `pbuf` and returns how many; the next segment goes to
`header + length`, where `length` adds up the returned numbers.  A `Marker` is
those two results, `putMarker` the placing, and `CreateJpegHeader_eq` shows that
the segments come out back to back, as every writer counts right.
-/

namespace NetCamera

/-! ## Tables -/

/-- Luminance quantisation, `JPEG_StdQuantTblY`. -/
def JPEG_StdQuantTblY : List Nat :=
  [16, 11, 10, 16, 24, 40, 51, 61, 12, 12, 14, 19, 26, 58, 60, 55,
   14, 13, 16, 24, 40, 57, 69, 56, 14, 17, 22, 29, 51, 87, 80, 62,
   18, 22, 37, 56, 68, 109, 103, 77, 24, 35, 55, 64, 81, 104, 113, 92,
   49, 64, 78, 87, 103, 121, 120, 101, 72, 92, 95, 98, 112, 100, 103, 99]

/-- Chrominance quantisation, `JPEG_StdQuantTblC`. -/
def JPEG_StdQuantTblC : List Nat :=
  [17, 18, 24, 47, 99, 99, 99, 99, 18, 21, 26, 66, 99, 99, 99, 99,
   24, 26, 56, 99, 99, 99, 99, 99, 47, 66, 99, 99, 99, 99, 99, 99,
   99, 99, 99, 99, 99, 99, 99, 99, 99, 99, 99, 99, 99, 99, 99, 99,
   99, 99, 99, 99, 99, 99, 99, 99, 99, 99, 99, 99, 99, 99, 99, 99]

/-- The zigzag position of each natural position. -/
def zigzag : List Nat :=
  [0, 1, 5, 6, 14, 15, 27, 28, 2, 4, 7, 13, 16, 26, 29, 42,
   3, 8, 12, 17, 25, 30, 41, 43, 9, 11, 18, 24, 31, 40, 44, 53,
   10, 19, 23, 32, 39, 45, 52, 54, 20, 22, 33, 38, 46, 51, 55, 60,
   21, 34, 37, 47, 50, 56, 59, 61, 35, 36, 48, 49, 57, 58, 62, 63]

/-- The Huffman code tables: AC of luminance from 0, of chrominance from 176, DC from
352 and 368.  The upper part of an entry is the code length less one. -/
def JPEG_StdHuffmanTbl : List Nat :=
  [0x100, 0x101, 0x204, 0x30b, 0x41a, 0x678, 0x7f8, 0x9f6, 0xf82, 0xf83, 0x30c, 0x41b,
   0x679, 0x8f6, 0xaf6, 0xf84, 0xf85, 0xf86, 0xf87, 0xf88, 0x41c, 0x7f9, 0x9f7, 0xbf4,
   0xf89, 0xf8a, 0xf8b, 0xf8c, 0xf8d, 0xf8e, 0x53a, 0x8f7, 0xbf5, 0xf8f, 0xf90, 0xf91,
   0xf92, 0xf93, 0xf94, 0xf95, 0x53b, 0x9f8, 0xf96, 0xf97, 0xf98, 0xf99, 0xf9a, 0xf9b,
   0xf9c, 0xf9d, 0x67a, 0xaf7, 0xf9e, 0xf9f, 0xfa0, 0xfa1, 0xfa2, 0xfa3, 0xfa4, 0xfa5,
   0x67b, 0xbf6, 0xfa6, 0xfa7, 0xfa8, 0xfa9, 0xfaa, 0xfab, 0xfac, 0xfad, 0x7fa, 0xbf7,
   0xfae, 0xfaf, 0xfb0, 0xfb1, 0xfb2, 0xfb3, 0xfb4, 0xfb5, 0x8f8, 0xec0, 0xfb6, 0xfb7,
   0xfb8, 0xfb9, 0xfba, 0xfbb, 0xfbc, 0xfbd, 0x8f9, 0xfbe, 0xfbf, 0xfc0, 0xfc1, 0xfc2,
   0xfc3, 0xfc4, 0xfc5, 0xfc6, 0x8fa, 0xfc7, 0xfc8, 0xfc9, 0xfca, 0xfcb, 0xfcc, 0xfcd,
   0xfce, 0xfcf, 0x9f9, 0xfd0, 0xfd1, 0xfd2, 0xfd3, 0xfd4, 0xfd5, 0xfd6, 0xfd7, 0xfd8,
   0x9fa, 0xfd9, 0xfda, 0xfdb, 0xfdc, 0xfdd, 0xfde, 0xfdf, 0xfe0, 0xfe1, 0xaf8, 0xfe2,
   0xfe3, 0xfe4, 0xfe5, 0xfe6, 0xfe7, 0xfe8, 0xfe9, 0xfea, 0xfeb, 0xfec, 0xfed, 0xfee,
   0xfef, 0xff0, 0xff1, 0xff2, 0xff3, 0xff4, 0xff5, 0xff6, 0xff7, 0xff8, 0xff9, 0xffa,
   0xffb, 0xffc, 0xffd, 0xffe, 0x30a, 0xaf9, 0xfff, 0xfff, 0xfff, 0xfff, 0xfff, 0xfff,
   0xfd0, 0xfd1, 0xfd2, 0xfd3, 0xfd4, 0xfd5, 0xfd6, 0xfd7, 0x101, 0x204, 0x30a, 0x418,
   0x419, 0x538, 0x678, 0x8f4, 0x9f6, 0xbf4, 0x30b, 0x539, 0x7f6, 0x8f5, 0xaf6, 0xbf5,
   0xf88, 0xf89, 0xf8a, 0xf8b, 0x41a, 0x7f7, 0x9f7, 0xbf6, 0xec2, 0xf8c, 0xf8d, 0xf8e,
   0xf8f, 0xf90, 0x41b, 0x7f8, 0x9f8, 0xbf7, 0xf91, 0xf92, 0xf93, 0xf94, 0xf95, 0xf96,
   0x53a, 0x8f6, 0xf97, 0xf98, 0xf99, 0xf9a, 0xf9b, 0xf9c, 0xf9d, 0xf9e, 0x53b, 0x9f9,
   0xf9f, 0xfa0, 0xfa1, 0xfa2, 0xfa3, 0xfa4, 0xfa5, 0xfa6, 0x679, 0xaf7, 0xfa7, 0xfa8,
   0xfa9, 0xfaa, 0xfab, 0xfac, 0xfad, 0xfae, 0x67a, 0xaf8, 0xfaf, 0xfb0, 0xfb1, 0xfb2,
   0xfb3, 0xfb4, 0xfb5, 0xfb6, 0x7f9, 0xfb7, 0xfb8, 0xfb9, 0xfba, 0xfbb, 0xfbc, 0xfbd,
   0xfbe, 0xfbf, 0x8f7, 0xfc0, 0xfc1, 0xfc2, 0xfc3, 0xfc4, 0xfc5, 0xfc6, 0xfc7, 0xfc8,
   0x8f8, 0xfc9, 0xfca, 0xfcb, 0xfcc, 0xfcd, 0xfce, 0xfcf, 0xfd0, 0xfd1, 0x8f9, 0xfd2,
   0xfd3, 0xfd4, 0xfd5, 0xfd6, 0xfd7, 0xfd8, 0xfd9, 0xfda, 0x8fa, 0xfdb, 0xfdc, 0xfdd,
   0xfde, 0xfdf, 0xfe0, 0xfe1, 0xfe2, 0xfe3, 0xaf9, 0xfe4, 0xfe5, 0xfe6, 0xfe7, 0xfe8,
   0xfe9, 0xfea, 0xfeb, 0xfec, 0xde0, 0xfed, 0xfee, 0xfef, 0xff0, 0xff1, 0xff2, 0xff3,
   0xff4, 0xff5, 0xec3, 0xff6, 0xff7, 0xff8, 0xff9, 0xffa, 0xffb, 0xffc, 0xffd, 0xffe,
   0x100, 0x9fa, 0xfff, 0xfff, 0xfff, 0xfff, 0xfff, 0xfff, 0xfd0, 0xfd1, 0xfd2, 0xfd3,
   0xfd4, 0xfd5, 0xfd6, 0xfd7, 0x100, 0x202, 0x203, 0x204, 0x205, 0x206, 0x30e, 0x41e,
   0x53e, 0x67e, 0x7fe, 0x8fe, 0xfff, 0xfff, 0xfff, 0xfff, 0x100, 0x101, 0x102, 0x206,
   0x30e, 0x41e, 0x53e, 0x67e, 0x7fe, 0x8fe, 0x9fe, 0xafe, 0xfff, 0xfff, 0xfff, 0xfff]

/-! ## Marker writers -/

/-- The sampling formats. -/
inductive Format where
  | YCBCR422
  | YCBCR420
  | MONOCHROME
  deriving DecidableEq, Repr

/-- What a marker writer does: the bytes it stores and the number it returns. -/
structure Marker where
  bytes : List UInt8
  ret : Nat
  deriving DecidableEq, Repr

/-- A number as two big-endian bytes, `n>>8` and `n&0xFF`. -/
def be16 (n : Nat) : List UInt8 := [UInt8.ofNat (n / 256), UInt8.ofNat n]

def JfifApp0Marker : Marker where
  bytes := [0xFF, 0xE0, 0x00, 0x10, 0x4A, 0x46, 0x49, 0x46, 0x00, 0x01, 0x02, 0x00, 0x00, 0x01,
    0x00, 0x01, 0x00, 0x00]
  ret := 18

/-- A scaled quantisation entry, limited to 1..255. -/
def quantEntry (t : Nat) (qscale : Int) : UInt8 :=
  let temp := ((t : Int) * qscale + 16).tdiv 32
  let temp := if temp ≤ 0 then 1 else temp
  UInt8.ofInt (if temp > 255 then 255 else temp)

/-- The scaled table in zigzag order, stored over `newtbl`. -/
def scaleTable (tbl : List Nat) (qscale : Int) (newtbl : List UInt8) : List UInt8 :=
  (List.range 64).foldl
    (fun newtbl i => newtbl.set (zigzag.getD i 0) (quantEntry (tbl.getD i 0) qscale)) newtbl

def DefineQuantizationTableMarker (qscale : Int) (format : Format) : Marker :=
  let length := if format = .MONOCHROME then 67 else 132
  let newtbl := scaleTable JPEG_StdQuantTblY qscale (List.replicate 64 0)
  let front := [0xFF, 0xDB] ++ be16 length ++ [0] ++ newtbl
  if format = .MONOCHROME then { bytes := front, ret := length + 2 }
  else { bytes := front ++ [1] ++ scaleTable JPEG_StdQuantTblC qscale newtbl, ret := length + 2 }

def FrameHeaderMarker (width height : Nat) (format : Format) : Marker :=
  let length := if format = .MONOCHROME then 11 else 17
  { bytes := [0xFF, 0xC0] ++ be16 length ++ [0x08] ++ be16 height ++ be16 width ++
      match format with
      | .MONOCHROME => [0x01, 0x00, 0x11, 0x00]
      | .YCBCR422 => [0x03, 0x00, 0x21, 0x00, 0x01, 0x11, 0x01, 0x02, 0x11, 0x01]
      | .YCBCR420 => [0x03, 0x00, 0x22, 0x00, 0x01, 0x11, 0x01, 0x02, 0x11, 0x01]
    ret := length + 2 }

/-- The entries of `htable` among `is` with code length `l + 1`. -/
def codesOf (htable : List Nat) (is : List Nat) (l : Nat) : List Nat :=
  is.filter fun i => htable.getD i 0 / 256 == l

/-- A Huffman table segment: the counts of the 16 code lengths, then the values in
the order of their code lengths. -/
def huffmanMarker (class_id : UInt8) (counts : Nat → Nat) (vals : Nat → List UInt8) : Marker :=
  let huffval := (List.range 16).flatMap vals
  let length := 19 + huffval.length
  { bytes := [0xFF, 0xC4] ++ be16 length ++ [class_id] ++
      (List.range 16).map (fun l => UInt8.ofNat (counts l)) ++ huffval
    ret := length + 2 }

def DefineHuffmanTableMarkerDC (htable : List Nat) (class_id : UInt8) : Marker :=
  huffmanMarker class_id (fun l => (codesOf htable (List.range 12) l).length) fun l =>
    (codesOf htable (List.range 12) l).map UInt8.ofNat

/-- The value byte of AC entry `i`: run length and size. -/
def acValue (i : Nat) : UInt8 := UInt8.ofNat (i / 10 * 16 + (i % 10 + 1))

/-- Within one code length: end of block (entry 160), the first 150 values, the
run of 16 zeros (entry 161), the last ten values. -/
def DefineHuffmanTableMarkerAC (htable : List Nat) (class_id : UInt8) : Marker :=
  huffmanMarker class_id (fun l => (codesOf htable (List.range 162) l).length) fun l =>
    (codesOf htable [160] l).map (fun _ => 0) ++
    (codesOf htable (List.range 150) l).map acValue ++
    (codesOf htable [161] l).map (fun _ => 0xF0) ++
    (codesOf htable (List.range' 150 10) l).map acValue

def DefineRestartIntervalMarker (ri : Nat) : Marker where
  bytes := [0xFF, 0xDD, 0x00, 0x04] ++ be16 ri
  ret := 6

def ScanHeaderMarker (format : Format) : Marker :=
  let length := if format = .MONOCHROME then 8 else 12
  { bytes := [0xFF, 0xDA] ++ be16 length ++
      (if format = .MONOCHROME then [0x01, 0x00, 0x00]
        else [0x03, 0x00, 0x00, 0x01, 0x11, 0x02, 0x11]) ++ [0x00, 0x3F, 0x00]
    ret := length + 2 }

/-! ## The header -/

/-- Write a segment at `header + length`; `length` moves on by what the writer
returned. -/
def putMarker (h : Marker) (m : Marker) : Marker where
  bytes := h.bytes.take h.ret ++ m.bytes ++ h.bytes.drop (h.ret + m.bytes.length)
  ret := h.ret + m.ret

/-- The segments of a header in order. -/
def jpegMarkers (width height : Nat) (format : Format) (restart_int : Nat) (qscale : Int) :
    List Marker :=
  [JfifApp0Marker, DefineQuantizationTableMarker qscale format,
   FrameHeaderMarker width height format,
   DefineHuffmanTableMarkerDC (JPEG_StdHuffmanTbl.drop 352) 0x00,
   DefineHuffmanTableMarkerAC (JPEG_StdHuffmanTbl.drop 0) 0x10] ++
  (if format = .MONOCHROME then []
    else [DefineHuffmanTableMarkerDC (JPEG_StdHuffmanTbl.drop 368) 0x01,
      DefineHuffmanTableMarkerAC (JPEG_StdHuffmanTbl.drop 176) 0x11]) ++
  (if restart_int > 0 then [DefineRestartIntervalMarker restart_int] else []) ++
  [ScanHeaderMarker format]

/-- `CreateJpegHeader`: the start of image and the segments behind it. -/
def CreateJpegHeader (width height : Nat) (format : Format) (restart_int : Nat) (qscale : Int) :
    Marker :=
  (jpegMarkers width height format restart_int qscale).foldl putMarker
    { bytes := [0xFF, 0xD8], ret := 2 }

/-! ## The writers count right -/

/-- The writer returns the number of bytes it stores. -/
def Marker.Exact (m : Marker) : Prop := m.bytes.length = m.ret

@[simp] theorem length_be16 (n : Nat) : (be16 n).length = 2 := rfl

theorem length_scaleTable (tbl : List Nat) (qscale : Int) (newtbl : List UInt8) :
    (scaleTable tbl qscale newtbl).length = newtbl.length := by
  unfold scaleTable
  generalize List.range 64 = is
  induction is generalizing newtbl with
  | nil => rfl
  | cons i is ih => rw [List.foldl_cons, ih, List.length_set]

theorem exact_DefineQuantizationTableMarker (qscale : Int) (format : Format) :
    (DefineQuantizationTableMarker qscale format).Exact := by
  cases format <;>
    simp [DefineQuantizationTableMarker, Marker.Exact, length_scaleTable]

theorem exact_FrameHeaderMarker (width height : Nat) (format : Format) :
    (FrameHeaderMarker width height format).Exact := by
  cases format <;> simp [FrameHeaderMarker, Marker.Exact]

theorem exact_huffmanMarker (class_id : UInt8) (counts : Nat → Nat) (vals : Nat → List UInt8) :
    (huffmanMarker class_id counts vals).Exact := by
  rw [Marker.Exact, huffmanMarker]
  simp only [List.length_append, List.length_cons, List.length_nil, length_be16, List.length_map,
    List.length_range]
  omega

theorem exact_ScanHeaderMarker (format : Format) : (ScanHeaderMarker format).Exact := by
  cases format <;> rfl

theorem exact_jpegMarkers (width height : Nat) (format : Format) (restart_int : Nat)
    (qscale : Int) : ∀ m ∈ jpegMarkers width height format restart_int qscale, m.Exact := by
  intro m hm
  simp only [jpegMarkers, List.mem_append, List.mem_cons, List.not_mem_nil, or_false] at hm
  rcases hm with ((hm | hm) | hm) | hm
  · rcases hm with rfl | rfl | rfl | rfl | rfl
    · rfl
    · exact exact_DefineQuantizationTableMarker _ _
    · exact exact_FrameHeaderMarker _ _ _
    · exact exact_huffmanMarker _ _ _
    · exact exact_huffmanMarker _ _ _
  · split at hm
    · cases hm
    · simp only [List.mem_cons, List.not_mem_nil, or_false] at hm
      rcases hm with rfl | rfl
      · exact exact_huffmanMarker _ _ _
      · exact exact_huffmanMarker _ _ _
  · split at hm
    · simp only [List.mem_cons, List.not_mem_nil, or_false] at hm
      subst hm
      rfl
    · cases hm
  · subst hm
    exact exact_ScanHeaderMarker format

/-- Exact writers append their segments. -/
theorem foldl_putMarker {ms : List Marker} (hms : ∀ m ∈ ms, m.Exact) {h : Marker}
    (hh : h.Exact) : (ms.foldl putMarker h).bytes = h.bytes ++ (ms.map Marker.bytes).flatten ∧
      (ms.foldl putMarker h).Exact := by
  induction ms generalizing h with
  | nil => exact ⟨by simp, hh⟩
  | cons m ms ih =>
      have hput : (putMarker h m).bytes = h.bytes ++ m.bytes := by
        rw [putMarker, ← hh, List.take_length, List.drop_of_length_le (by omega), List.append_nil]
      have hexact : (putMarker h m).Exact := by
        have hm := hms m List.mem_cons_self
        unfold Marker.Exact at hh hm ⊢
        rw [hput, List.length_append, hh, hm]
        rfl
      obtain ⟨hbytes, hlast⟩ := ih (fun m' hm' => hms m' (List.mem_cons_of_mem m hm')) hexact
      refine ⟨?_, hlast⟩
      rw [List.foldl_cons, hbytes, hput, List.map_cons, List.flatten_cons, List.append_assoc]

/-- **The header is its segments back to back**, and its length is what
`CreateJpegHeader` returns. -/
theorem CreateJpegHeader_eq (width height : Nat) (format : Format) (restart_int : Nat)
    (qscale : Int) :
    (CreateJpegHeader width height format restart_int qscale).bytes = [0xFF, 0xD8] ++
      ((jpegMarkers width height format restart_int qscale).map Marker.bytes).flatten ∧
    (CreateJpegHeader width height format restart_int qscale).Exact :=
  foldl_putMarker (exact_jpegMarkers width height format restart_int qscale) rfl

end NetCamera
