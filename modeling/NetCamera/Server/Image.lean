import NetCamera.JpegWalk
import NetCamera.Server.Resources

/-!
# NetCamera.Server.Image

One image on the wire.

An image is sent as a frame of parts, each with a `netconn_write` of its own:

```
"CORENCE" 00 | length (4) | width (2) | height (2)     the image header
JPEG header | image bytes, 1024 at a time | FF D9
```

`restOf` is what of the frame is still to come at each position, so that a write
that succeeds moves its part over to the bytes accepted (`part_append_restOf`),
and an image of which every write succeeds is sent whole (`image_frame`).
-/

namespace NetCamera

open Run

/-! ## The frame -/

/-- The JPEG header for the size of a record. -/
def jpegHeader (p : SavePara) : List UInt8 :=
  (CreateJpegHeader p.size0.toNat p.size1.toNat .YCBCR422 0x0020 9).bytes

/-- The frame the server makes of an image of `len` bytes: the image header shows the
record in RAM, the JPEG header the one on flash. -/
def Server.imageFrame (s : Server) (len : Nat) (img : List UInt8) : List UInt8 :=
  sendLogo len s.cam.SaveParaList ++ (jpegHeader (flashRecord s.cam.flash) ++ (img ++ send_end))

/-- A number as `k` little-endian bytes. -/
def leBytes (k n : Nat) : List UInt8 := (List.range k).map fun i => UInt8.ofNat (n / 256 ^ i)

/-- Little-endian bytes as a number. -/
def leVal (bs : List UInt8) : Nat := bs.foldr (fun b n => b.toNat + 256 * n) 0

@[simp] theorem length_leBytes (k n : Nat) : (leBytes k n).length = k := by
  simp [leBytes]

theorem leBytes_succ (k n : Nat) : leBytes (k + 1) n = UInt8.ofNat n :: leBytes k (n / 256) := by
  unfold leBytes
  rw [List.range_succ_eq_map, List.map_cons, List.map_map, Nat.pow_zero, Nat.div_one]
  congr 1
  refine List.map_congr_left fun i _ => ?_
  rw [Function.comp_apply, Nat.succ_eq_add_one, Nat.pow_succ, Nat.mul_comm,
    ← Nat.div_div_eq_div_mul]

/-- The number is read back from its bytes. -/
theorem leVal_leBytes {k n : Nat} (h : n < 256 ^ k) : leVal (leBytes k n) = n := by
  induction k generalizing n with
  | zero =>
      have hn : n = 0 := by simpa using h
      rw [hn]
      rfl
  | succ k ih =>
      have hdiv : n / 256 < 256 ^ k := by
        rw [Nat.pow_succ] at h
        omega
      have hcons : leVal (UInt8.ofNat n :: leBytes k (n / 256)) =
          (UInt8.ofNat n).toNat + 256 * leVal (leBytes k (n / 256)) := rfl
      rw [leBytes_succ, hcons, ih hdiv, UInt8.toNat_ofNat']
      omega

/-- A field in the middle of a text. -/
theorem take_drop_append {u v w : List UInt8} {i n : Nat} (hi : u.length = i) (hn : v.length = n) :
    ((u ++ (v ++ w)).drop i).take n = v := by
  rw [← hi, List.drop_left, ← hn, List.take_left]

/-- The image header: start, length, width and height. -/
theorem sendLogo_eq (len : Nat) (p : SavePara) : sendLogo len p =
    startText ++ (leBytes 4 len ++ (leBytes 2 p.size0.toNat ++ leBytes 2 p.size1.toNat)) := by
  simp [sendLogo, leBytes, lo, hi, List.range_succ]

/-- The length is read back from an image header. -/
theorem length_of_sendLogo {len : Nat} (hlen : len < 2 ^ 32) (p : SavePara) (rest : List UInt8) :
    leVal (((sendLogo len p ++ rest).drop 8).take 4) = len := by
  have hfield : ((sendLogo len p ++ rest).drop 8).take 4 = leBytes 4 len := by
    rw [sendLogo_eq, List.append_assoc, List.append_assoc]
    exact take_drop_append (show startText.length = 8 from rfl) (length_leBytes 4 len)
  rw [hfield]
  exact leVal_leBytes hlen

/-- Width and height are read back from an image header. -/
theorem size_of_sendLogo (len : Nat) (p : SavePara) (rest : List UInt8) :
    leVal (((sendLogo len p ++ rest).drop 12).take 2) = p.size0.toNat ∧
    leVal (((sendLogo len p ++ rest).drop 14).take 2) = p.size1.toNat := by
  have hstart : startText.length = 8 := rfl
  have hwidth : ((sendLogo len p ++ rest).drop 12).take 2 = leBytes 2 p.size0.toNat := by
    have hsplit : sendLogo len p ++ rest = (startText ++ leBytes 4 len) ++
        (leBytes 2 p.size0.toNat ++ (leBytes 2 p.size1.toNat ++ rest)) := by
      simp only [sendLogo_eq, List.append_assoc]
    rw [hsplit]
    exact take_drop_append (by rw [List.length_append, hstart, length_leBytes])
      (length_leBytes 2 _)
  have hheight : ((sendLogo len p ++ rest).drop 14).take 2 = leBytes 2 p.size1.toNat := by
    have hsplit : sendLogo len p ++ rest = (startText ++ leBytes 4 len ++
        leBytes 2 p.size0.toNat) ++ (leBytes 2 p.size1.toNat ++ rest) := by
      simp only [sendLogo_eq, List.append_assoc]
    rw [hsplit]
    exact take_drop_append
      (by rw [List.length_append, List.length_append, hstart, length_leBytes, length_leBytes])
      (length_leBytes 2 _)
  rw [hwidth, hheight]
  exact ⟨leVal_leBytes p.size0.toNat_lt, leVal_leBytes p.size1.toNat_lt⟩

/-- A stretch of a buffer is its first part and the rest. -/
theorem imageBytes_add (mem : Nat → BitVec 32) (off m n : Nat) :
    imageBytes mem off (m + n) = imageBytes mem off m ++ imageBytes mem (off + m) n := by
  unfold imageBytes
  rw [List.range_add, List.map_append, List.map_map]
  congr 1
  refine List.map_congr_left fun k _ => ?_
  simp only [Function.comp_apply, Nat.add_assoc]

@[simp] theorem length_imageBytes (mem : Nat → BitVec 32) (off n : Nat) :
    (imageBytes mem off n).length = n := by
  simp [imageBytes]

/-- The bytes of a word go out low byte first. -/
theorem imageBytes_word (mem : Nat → BitVec 32) (i : Nat) :
    imageBytes mem (4 * i) 4 = leBytes 4 (mem i).toNat := by
  refine List.map_congr_left fun k hk => ?_
  have hlt := List.mem_range.mp hk
  rw [show (4 * i + k) / 4 = i by omega, show (4 * i + k) % 4 = k by omega, byteOf]

/-- Four bytes of an image are a word of the buffer. -/
theorem leVal_imageBytes (mem : Nat → BitVec 32) (i : Nat) :
    leVal (imageBytes mem (4 * i) 4) = (mem i).toNat := by
  rw [imageBytes_word, leVal_leBytes (mem i).isLt]

/-- A part of an image is a stretch of its bytes. -/
theorem take_drop_imageBytes (mem : Nat → BitVec 32) {k n len : Nat} (h : k + n ≤ len) :
    ((imageBytes mem 0 len).drop k).take n = imageBytes mem k n := by
  obtain ⟨m, rfl⟩ := Nat.exists_eq_add_of_le h
  have hk : (imageBytes mem 0 k).length = k := length_imageBytes mem 0 k
  have hn : (imageBytes mem k n).length = n := length_imageBytes mem k n
  rw [Nat.add_assoc, imageBytes_add, imageBytes_add, Nat.zero_add, List.drop_append,
    List.drop_of_length_le (by omega), List.nil_append, hk, Nat.sub_self, List.drop_zero,
    List.take_append, List.take_of_length_le (by omega), hn, Nat.sub_self, List.take_zero,
    List.append_nil]

/-! ## The writes of an image -/

/-- The buffer whose image the thread is writing. -/
def Pc.imageOf : Pc → Option FrameBuf
  | logo b _ => some b
  | header b _ _ => some b
  | chunk b _ _ => some b
  | tail b _ => some b
  | endMark b => some b
  | _ => none

/-- The bytes handed to the write the thread is in. -/
def Server.part (s : Server) : List UInt8 :=
  match s.pc with
  | .logo _ _ => s.send_logo
  | .header _ _ g_header => g_header
  | .chunk b _ i => imageBytes (s.mem b) (i * 1024) 1024
  | .tail b len => imageBytes (s.mem b) (len / 1024 * 1024) (len % 1024)
  | .endMark _ => send_end
  | _ => []

/-- Where the thread goes on behind the write it is in. -/
def Server.nextPc (s : Server) (e : Err) : Pc :=
  match s.pc with
  | .logo b len => .header b len (jpegHeader (flashRecord s.cam.flash))
  | .header b len _ => chunkPc b len 0
  | .chunk b len i => if e = .ERR_OK then chunkPc b len (i + 1) else .tail b len
  | .tail b _ => .endMark b
  | .endMark b => .recv (.image b)
  | pc => pc

/-- What of an image frame is still to come at a position. -/
def Server.restOf (s : Server) (len : Nat) (img : List UInt8) : Pc → List UInt8
  | .logo _ _ => s.imageFrame len img
  | .header _ _ _ => jpegHeader (flashRecord s.cam.flash) ++ (img ++ send_end)
  | .chunk _ _ i => img.drop (i * 1024) ++ send_end
  | .tail _ len => img.drop (len / 1024 * 1024) ++ send_end
  | .endMark _ => send_end
  | _ => []

/-- The effect of a write of a part of an image. -/
structure PartStep (s : Server) (e : Err) (s' : Server) : Prop where
  calls : s'.calls = s.calls ++ .write s.writeSize s.part e ::
    (if e.gone then [.close, .delete] else [])
  pc : s'.pc = if e.gone then .accept else s.nextPc e
  mem : s'.mem = s.mem
  send_logo : s'.send_logo = s.send_logo
  flash : s'.cam.flash = s.cam.flash

theorem PartStep.pc_gone {s s' : Server} {e : Err} (h : PartStep s e s') (hgone : e.gone = true) :
    s'.pc = .accept := by
  rw [h.pc, if_pos hgone]

theorem PartStep.pc_next {s s' : Server} {e : Err} (h : PartStep s e s') (hgone : e.gone = false) :
    s'.pc = s.nextPc e := by
  rw [h.pc, if_neg (by simp [hgone])]

theorem partStep_goOn {s : Server} {e : Err} {pc : Pc} (hpc : s.nextPc e = pc) :
    PartStep s e ((s.wrote s.writeSize s.part e).goOn e pc) := by
  unfold Server.goOn
  split
  · next hgone =>
    refine ⟨?_, by rw [hgone]; rfl, rfl, rfl, rfl⟩
    simp [Server.giveUp, Server.wrote, hgone]
  · next hgone =>
    rw [Bool.not_eq_true] at hgone
    refine ⟨?_, by rw [hgone, hpc]; rfl, rfl, rfl, rfl⟩
    simp [Server.wrote, hgone]

theorem partStep {s s' : Server} {e : Err} {b : FrameBuf} (hb : s.pc.imageOf = some b)
    (h : step s (.ret e) = some s') : PartStep s e s' := by
  simp only [step] at h
  have hsize : ∀ n, s.writeSize = n → ∀ bytes, s.part = bytes →
      s.wrote n bytes e = s.wrote s.writeSize s.part e := by
    intro n hn bytes hbytes
    rw [hn, hbytes]
  cases hpc : s.pc <;> simp only [hpc, Pc.imageOf, reduceCtorEq] at hb <;>
    simp only [retStep, hpc] at h
  case logo b' len =>
    rw [hsize 16 (by simp [Server.writeSize, hpc]) s.send_logo (by simp [Server.part, hpc])] at h
    split at h <;> simp only [Option.some.injEq] at h <;> subst h
    · next hgone =>
      refine ⟨?_, by rw [hgone]; rfl, rfl, rfl, rfl⟩
      simp [Server.giveUp, Server.wrote, hgone]
    · next hgone =>
      rw [Bool.not_eq_true] at hgone
      refine ⟨by simp [Server.wrote, hgone], ?_, rfl, rfl, rfl⟩
      simp only [hgone, Bool.false_eq_true, if_false, Server.nextPc, hpc]
      rfl
  case header b' len g_header =>
    rw [hsize g_header.length (by simp [Server.writeSize, hpc]) g_header
      (by simp [Server.part, hpc])] at h
    simp only [Option.some.injEq] at h
    subst h
    exact partStep_goOn (by simp [Server.nextPc, hpc])
  case chunk b' len i =>
    rw [hsize 1024 (by simp [Server.writeSize, hpc]) (imageBytes (s.mem b') (i * 1024) 1024)
      (by simp [Server.part, hpc])] at h
    split at h <;> simp only [Option.some.injEq] at h <;> subst h
    · next hok => exact partStep_goOn (by simp [Server.nextPc, hpc, hok])
    · next hok =>
      have he : e = .ERR_OK := Classical.not_not.mp hok
      subst he
      refine ⟨by simp [Server.wrote, Err.gone], ?_, rfl, rfl, rfl⟩
      simp [Server.nextPc, hpc, Err.gone]
  case tail b' len =>
    rw [hsize (len % 1024) (by simp [Server.writeSize, hpc])
      (imageBytes (s.mem b') (len / 1024 * 1024) (len % 1024)) (by simp [Server.part, hpc])] at h
    split at h
    · cases h
    · simp only [Option.some.injEq] at h
      subst h
      exact partStep_goOn (by simp [Server.nextPc, hpc])
  case endMark b' =>
    rw [hsize 2 (by simp [Server.writeSize, hpc]) send_end (by simp [Server.part, hpc])] at h
    simp only [Option.some.injEq] at h
    subst h
    exact partStep_goOn (by simp [Server.nextPc, hpc])

/-! ## The bytes accepted -/

/-- A write that failed. -/
def Call.failed : Call → Bool
  | write _ _ e => e != .ERR_OK
  | _ => false

/-- The bytes the connection accepts of some calls: those of the writes that return
`ERR_OK`. -/
def accepted (cs : List Call) : List UInt8 :=
  cs.flatMap fun c => match c with
    | .write _ bytes .ERR_OK => bytes
    | _ => []

theorem accepted_append (cs ds : List Call) :
    accepted (cs ++ ds) = accepted cs ++ accepted ds := List.flatMap_append

/-! ## Where the thread is with an image -/

/-- The thread is at a part of the image of `len` bytes in `b` that it began in the
state `s₀`. -/
def AtPart (s₀ : Server) (b : FrameBuf) (len : Nat) (s : Server) : Prop :=
  match s.pc with
  | .logo b' len' => b' = b ∧ len' = len ∧ s.send_logo = sendLogo len s₀.cam.SaveParaList ∧
      s.cam.flash = s₀.cam.flash
  | .header b' len' g_header => b' = b ∧ len' = len ∧
      g_header = jpegHeader (flashRecord s₀.cam.flash)
  | .chunk b' len' i => b' = b ∧ len' = len ∧ i < len / 1024
  | .tail b' len' => b' = b ∧ len' = len
  | .endMark b' => b' = b
  | pc => pc = .accept ∨ pc = .recv (.image b)

/-- What the buffer shows of an image at the write the thread is in. -/
def Server.Finds (s : Server) (img : List UInt8) : Prop :=
  match s.pc with
  | .chunk b _ i => imageBytes (s.mem b) (i * 1024) 1024 = (img.drop (i * 1024)).take 1024
  | .tail b len => imageBytes (s.mem b) (len / 1024 * 1024) (len % 1024) =
      (img.drop (len / 1024 * 1024)).take (len % 1024)
  | _ => True

theorem atPart_chunkPc {s₀ s : Server} {b : FrameBuf} {len i : Nat} (hpc : s.pc = chunkPc b len i) :
    AtPart s₀ b len s := by
  unfold AtPart
  unfold chunkPc at hpc
  split at hpc <;> rw [hpc]
  · next hlt => exact ⟨rfl, rfl, hlt⟩
  · exact ⟨rfl, rfl⟩

/-- A write leads to the next part, or out of the image. -/
theorem atPart_write {s₀ s s' : Server} {b : FrameBuf} {len : Nat} {e : Err}
    (h : AtPart s₀ b len s) (hb : s.pc.imageOf = some b) (hstep : PartStep s e s') :
    AtPart s₀ b len s' := by
  cases hgone : e.gone with
  | true =>
      rw [AtPart, hstep.pc_gone hgone]
      exact Or.inl rfl
  | false =>
      have hpc' := hstep.pc_next hgone
      unfold AtPart at h
      cases hpc : s.pc <;> simp only [hpc, Pc.imageOf, reduceCtorEq] at hb <;>
        simp only [hpc, Server.nextPc] at h hpc'
      case logo b' len' =>
        obtain ⟨rfl, rfl, -, hflash⟩ := h
        rw [AtPart, hpc', hflash]
        exact ⟨rfl, rfl, rfl⟩
      case header b' len' g_header =>
        obtain ⟨rfl, rfl, -⟩ := h
        exact atPart_chunkPc hpc'
      case chunk b' len' i =>
        obtain ⟨rfl, rfl, -⟩ := h
        split at hpc'
        · exact atPart_chunkPc hpc'
        · rw [AtPart, hpc']
          exact ⟨rfl, rfl⟩
      case tail b' len' =>
        rw [AtPart, hpc']
        exact h.1
      case endMark b' =>
        rw [AtPart, hpc', h]
        exact Or.inr rfl

/-- What is still to come at the next chunk, or at the rest behind the last one. -/
theorem restOf_chunkPc (s₀ : Server) (img : List UInt8) (b : FrameBuf) {len i : Nat}
    (hi : i ≤ len / 1024) :
    s₀.restOf len img (chunkPc b len i) = img.drop (i * 1024) ++ send_end := by
  unfold chunkPc
  split
  · rfl
  · have hlast : i = len / 1024 := by omega
    rw [hlast]
    rfl

/-- **A write that succeeds moves its part over.** -/
theorem part_append_restOf {s₀ s s' : Server} {b : FrameBuf} {img : List UInt8}
    (h : AtPart s₀ b img.length s) (hb : s.pc.imageOf = some b) (hfinds : s.Finds img)
    (hstep : PartStep s .ERR_OK s') :
    s.part ++ s₀.restOf img.length img s'.pc = s₀.restOf img.length img s.pc := by
  have hpc' := hstep.pc_next rfl
  unfold AtPart at h
  unfold Server.Finds at hfinds
  cases hpc : s.pc <;> simp only [hpc, Pc.imageOf, reduceCtorEq] at hb <;>
    simp only [hpc, Server.nextPc, if_true] at h hpc' hfinds <;>
    simp only [Server.part, hpc, hpc']
  case logo b' len' =>
    rw [h.2.2.1]
    rfl
  case header b' len' g_header =>
    rw [h.2.1, restOf_chunkPc _ _ _ (Nat.zero_le _), Nat.zero_mul, List.drop_zero, h.2.2]
    rfl
  case chunk b' len' i =>
    obtain ⟨-, rfl, hi⟩ := h
    have hdrop : img.drop ((i + 1) * 1024) = (img.drop (i * 1024)).drop 1024 := by
      rw [List.drop_drop, Nat.add_mul, Nat.one_mul]
    rw [restOf_chunkPc _ _ _ (by omega), hfinds, hdrop, ← List.append_assoc,
      List.take_append_drop]
    rfl
  case tail b' len' =>
    obtain ⟨-, rfl⟩ := h
    rw [hfinds, List.take_of_length_le (by rw [List.length_drop]; omega)]
    rfl
  case endMark b' => exact List.append_nil _

/-! ## Images without a failure -/

/-- No write of the image has failed: what was accepted and what is still to come make
the frame. -/
structure Whole (s₀ : Server) (b : FrameBuf) (img : List UInt8) (cs : List Call) (s : Server) :
    Prop where
  calls : s.calls = s₀.calls ++ cs
  kept : ∀ c ∈ cs, c.failed = false
  part : AtPart s₀ b img.length s
  pc : s.pc.imageOf = some b ∨ s.pc = .recv (.image b)
  frame : accepted cs ++ s₀.restOf img.length img s.pc = s₀.imageFrame img.length img

/-- Behind a write the thread is at the next one, or receives. -/
theorem nextPc_imageOf {s : Server} {e : Err} {b : FrameBuf} (hb : s.pc.imageOf = some b) :
    (s.nextPc e).imageOf = some b ∨ (s.pc = .endMark b ∧ s.nextPc e = .recv (.image b)) := by
  have hchunk : ∀ len i, (chunkPc b len i).imageOf = some b := by
    intro len i
    unfold chunkPc
    split <;> rfl
  cases hpc : s.pc <;> simp only [hpc, Pc.imageOf, reduceCtorEq, Option.some.injEq] at hb <;>
    subst hb <;> simp only [Server.nextPc, hpc]
  case logo => exact Or.inl rfl
  case header => exact Or.inl (hchunk _ _)
  case chunk =>
    split
    · exact Or.inl (hchunk _ _)
    · exact Or.inl rfl
  case tail => exact Or.inl rfl
  case endMark => exact Or.inr ⟨trivial, trivial⟩

theorem whole_ok {s₀ s s' : Server} {b : FrameBuf} {img : List UInt8} {cs : List Call}
    (h : Whole s₀ b img cs s) (hb : s.pc.imageOf = some b) (hfinds : s.Finds img)
    (hstep : PartStep s .ERR_OK s') :
    Whole s₀ b img (cs ++ [.write s.writeSize s.part .ERR_OK]) s' where
  calls := by
    rw [hstep.calls, h.calls, List.append_assoc]
    rfl
  kept := by
    intro c hc
    rcases List.mem_append.mp hc with hc | hc
    · exact h.kept c hc
    · rw [List.mem_singleton.mp hc]
      rfl
  part := atPart_write h.part hb hstep
  pc := by
    rw [hstep.pc_next rfl]
    exact (nextPc_imageOf hb).imp_right fun hend => hend.2
  frame := by
    have hpart : accepted [.write s.writeSize s.part .ERR_OK] = s.part := List.append_nil _
    rw [accepted_append, hpart, List.append_assoc, part_append_restOf h.part hb hfinds hstep,
      h.frame]

/-- What was accepted is the front of the frame. -/
theorem Whole.front {s₀ s : Server} {b : FrameBuf} {img : List UInt8} {cs : List Call}
    (h : Whole s₀ b img cs s) : accepted cs <+: s₀.imageFrame img.length img :=
  ⟨_, h.frame⟩

/-- An image begins with nothing accepted. -/
theorem whole_start {s s₁ : Server} {b : FrameBuf} {img : List UInt8} (hpc : s.pc = .readLen b)
    (hlen : img.length = s.jpeg_data_len * 4 % 2 ^ 32) (htick : step s .tick = some s₁) :
    Whole s b img [] s₁ := by
  simp only [step, tickStep, hpc, Option.some.injEq, ← hlen] at htick
  subst htick
  refine ⟨(List.append_nil _).symm, fun _ hc => absurd hc List.not_mem_nil, ?_, Or.inl rfl,
    List.nil_append _⟩
  unfold AtPart
  exact ⟨rfl, rfl, rfl, rfl⟩

/-! ## Whole images -/

/-- A write can succeed. -/
theorem step_ok {s : Server} {b : FrameBuf} (hb : s.pc.imageOf = some b) :
    ∃ s', step s (.ret .ERR_OK) = some s' := by
  have hgone : Err.gone .ERR_OK = false := rfl
  cases hpc : s.pc <;> simp only [hpc, Pc.imageOf, reduceCtorEq] at hb <;>
    simp [step, retStep, hpc, hgone]

/-- The chunks from `i` on and the rest, all of them accepted. -/
theorem run_chunks {b : FrameBuf} {len : Nat} (k : Nat) {s : Server} {i : Nat}
    (hpc : s.pc = chunkPc b len i) (hi : i + k = len / 1024) :
    ∃ u, run step s (List.replicate (k + 1) (.ret .ERR_OK)) = some u ∧ u.pc = .endMark b := by
  induction k generalizing s i with
  | zero =>
      rw [chunkPc, if_neg (by omega)] at hpc
      have hb : s.pc.imageOf = some b := by rw [hpc]; rfl
      obtain ⟨u, hu⟩ := step_ok hb
      refine ⟨u, run_cons_eq_some.mpr ⟨u, hu, rfl⟩, ?_⟩
      rw [(partStep hb hu).pc_next rfl, Server.nextPc, hpc]
  | succ k ih =>
      rw [chunkPc, if_pos (by omega)] at hpc
      have hb : s.pc.imageOf = some b := by rw [hpc]; rfl
      obtain ⟨t, ht⟩ := step_ok hb
      have hpc' : t.pc = chunkPc b len (i + 1) := by
        rw [(partStep hb ht).pc_next rfl, Server.nextPc, hpc]
        rfl
      obtain ⟨u, hu, hend⟩ := ih hpc' (by omega)
      exact ⟨u, run_cons_eq_some.mpr ⟨t, ht, hu⟩, hend⟩

/-- When every write succeeds the thread gets through the image. -/
theorem run_image {b : FrameBuf} {len : Nat} {s : Server} (hpc : s.pc = .logo b len) :
    ∃ n u, run step s (List.replicate n (.ret .ERR_OK)) = some u ∧ u.pc = .recv (.image b) := by
  have hb : s.pc.imageOf = some b := by rw [hpc]; rfl
  obtain ⟨s₁, h₁⟩ := step_ok hb
  have hpc₁ : s₁.pc = .header b len (jpegHeader (flashRecord s.cam.flash)) := by
    rw [(partStep hb h₁).pc_next rfl, Server.nextPc, hpc]
  have hb₁ : s₁.pc.imageOf = some b := by rw [hpc₁]; rfl
  obtain ⟨s₂, h₂⟩ := step_ok hb₁
  have hpc₂ : s₂.pc = chunkPc b len 0 := by
    rw [(partStep hb₁ h₂).pc_next rfl, Server.nextPc, hpc₁]
  obtain ⟨s₃, h₃, hpc₃⟩ := run_chunks (len / 1024) hpc₂ (Nat.zero_add _)
  have hb₃ : s₃.pc.imageOf = some b := by rw [hpc₃]; rfl
  obtain ⟨u, hu⟩ := step_ok hb₃
  refine ⟨(len / 1024 + 1 + 1) + 2, u, ?_, ?_⟩
  · refine run_cons_eq_some.mpr ⟨s₁, h₁, run_cons_eq_some.mpr ⟨s₂, h₂, ?_⟩⟩
    rw [List.replicate_succ', run_append, h₃]
    exact run_cons_eq_some.mpr ⟨u, hu, rfl⟩
  · rw [(partStep hb₃ hu).pc_next rfl, Server.nextPc, hpc₃]

/-- The buffer shows its own bytes. -/
theorem finds_imageBytes {s₀ s : Server} {b : FrameBuf} {len : Nat} (h : AtPart s₀ b len s) :
    s.Finds (imageBytes (s.mem b) 0 len) := by
  unfold AtPart at h
  unfold Server.Finds
  cases hpc : s.pc <;> simp only [hpc] at h ⊢
  case chunk b' len' i =>
    obtain ⟨rfl, rfl, hi⟩ := h
    rw [take_drop_imageBytes _ (by omega)]
  case tail b' len' =>
    obtain ⟨rfl, rfl⟩ := h
    rw [take_drop_imageBytes _ (by omega)]

/-- With no frame interrupt and no failure the image stays whole. -/
theorem whole_run {s s₁ u : Server} {b : FrameBuf} {n : Nat} (hpc : s.pc = .readLen b)
    (htick : step s .tick = some s₁)
    (hrun : run step s₁ (List.replicate n (.ret .ERR_OK)) = some u) :
    ∃ cs, Whole s b (imageBytes (s.mem b) 0 (s.jpeg_data_len * 4 % 2 ^ 32)) cs u := by
  let img := imageBytes (s.mem b) 0 (s.jpeg_data_len * 4 % 2 ^ 32)
  have hlen : img.length = s.jpeg_data_len * 4 % 2 ^ 32 := length_imageBytes _ _ _
  have hmem₁ : s₁.mem = s.mem := by
    simp only [step, tickStep, hpc, Option.some.injEq] at htick
    rw [← htick]
  have hok : Steps step (fun _ e => e = .ret .ERR_OK) s₁ (List.replicate n (.ret .ERR_OK)) :=
    (steps_iff_forall_mem hrun).mpr fun e he => List.eq_of_mem_replicate he
  have hinv : (∃ cs, Whole s b img cs u) ∧ u.mem = s.mem := by
    refine RunBy.invariant (I := fun t => (∃ cs, Whole s b img cs t) ∧ t.mem = s.mem) ⟨hrun, hok⟩
      ?_ ⟨⟨[], whole_start hpc hlen htick⟩, hmem₁⟩
    rintro t e t' ⟨⟨cs, hwhole⟩, hmem⟩ rfl hstep
    rcases hwhole.pc with hb | hrecv
    · have hpart := partStep hb hstep
      have hfinds : t.Finds img := by
        have hself := finds_imageBytes hwhole.part
        rwa [hlen, hmem] at hself
      exact ⟨⟨_, whole_ok hwhole hb hfinds hpart⟩, hpart.mem.trans hmem⟩
    · simp [step, retStep, hrecv] at hstep
  exact hinv.1

/-- **A whole image**: with every write accepted and no frame interrupt, what the server
writes for an image of `jpeg_data_len` words is the image header with the byte
length and the saved size, the JPEG header for that size, the bytes of the buffer
in order, and the end mark; length, width and height are read back from it. -/
theorem image_frame {s : Server} {b : FrameBuf} (hpc : s.pc = .readLen b)
    (hlen : s.jpeg_data_len ≤ 64512)
    (hsaved : flashRecord s.cam.flash = s.cam.SaveParaList) :
    ∃ n u, run step s (.tick :: List.replicate n (.ret .ERR_OK)) = some u ∧
      u.pc = .recv (.image b) ∧
      accepted (u.calls.drop s.calls.length) = startText ++ (leBytes 4 (4 * s.jpeg_data_len) ++
        (leBytes 2 s.cam.SaveParaList.size0.toNat ++ leBytes 2 s.cam.SaveParaList.size1.toNat)) ++
        ((CreateJpegHeader s.cam.SaveParaList.size0.toNat s.cam.SaveParaList.size1.toNat
            .YCBCR422 0x0020 9).bytes ++
          (imageBytes (s.mem b) 0 (4 * s.jpeg_data_len) ++ [0xff, 0xd9])) ∧
      leVal (((accepted (u.calls.drop s.calls.length)).drop 8).take 4) = 4 * s.jpeg_data_len ∧
      leVal (((accepted (u.calls.drop s.calls.length)).drop 12).take 2) =
        s.cam.SaveParaList.size0.toNat ∧
      leVal (((accepted (u.calls.drop s.calls.length)).drop 14).take 2) =
        s.cam.SaveParaList.size1.toNat := by
  have hmod : s.jpeg_data_len * 4 % 2 ^ 32 = 4 * s.jpeg_data_len := by omega
  have htick : step s .tick = some { s with
      send_logo := sendLogo (s.jpeg_data_len * 4 % 2 ^ 32) s.cam.SaveParaList
      pc := .logo b (s.jpeg_data_len * 4 % 2 ^ 32) } := by
    simp only [step, tickStep, hpc]
  obtain ⟨n, u, hrun, hend⟩ := run_image (s := { s with
      send_logo := sendLogo (s.jpeg_data_len * 4 % 2 ^ 32) s.cam.SaveParaList
      pc := .logo b (s.jpeg_data_len * 4 % 2 ^ 32) }) rfl
  obtain ⟨cs, hwhole⟩ := whole_run hpc htick hrun
  have hframe : accepted (u.calls.drop s.calls.length) =
      sendLogo (4 * s.jpeg_data_len) s.cam.SaveParaList ++ (jpegHeader s.cam.SaveParaList ++
        (imageBytes (s.mem b) 0 (4 * s.jpeg_data_len) ++ send_end)) := by
    have h := hwhole.frame
    have hrest : ∀ len img, s.restOf len img (.recv (.image b)) = [] := fun _ _ => rfl
    rw [hend, hrest, List.append_nil, length_imageBytes, Server.imageFrame, hsaved, hmod] at h
    rw [hwhole.calls, List.drop_left, h]
  have hlt : 4 * s.jpeg_data_len < 2 ^ 32 := by omega
  refine ⟨n, u, run_cons_eq_some.mpr ⟨_, htick, hrun⟩, hend, ?_, ?_⟩
  · rw [hframe, sendLogo_eq]
    rfl
  · rw [hframe]
    exact ⟨length_of_sendLogo hlt _ _, size_of_sendLogo _ _ _⟩

theorem image_frame_defaults : ∃ n u,
    run step { boot defaultFlash (fun _ _ => 0) with
      pc := .readLen .jpeg_data_buf, jpeg_data_len := 3 }
      (.tick :: List.replicate n (.ret .ERR_OK)) = some u ∧
    leVal (((accepted u.calls).drop 8).take 4) = 12 ∧
    leVal (((accepted u.calls).drop 12).take 2) = 640 ∧
    leVal (((accepted u.calls).drop 14).take 2) = 480 := by
  obtain ⟨n, u, hrun, -, -, hlen, hwidth, hheight⟩ := image_frame
    (s := { boot defaultFlash (fun _ _ => 0) with
      pc := .readLen .jpeg_data_buf, jpeg_data_len := 3 })
    rfl (by decide) (camOk_boot defaultFlash fun _ _ => 0).record
  have hsize : (boot defaultFlash fun _ _ => 0).cam.SaveParaList.size0 = 640 ∧
      (boot defaultFlash fun _ _ => 0).cam.SaveParaList.size1 = 480 := by
    rw [SaveParaList_boot, effective_defaultFlash]
    exact ⟨rfl, rfl⟩
  exact ⟨n, u, hrun, hlen, hwidth.trans (congrArg UInt16.toNat hsize.1),
    hheight.trans (congrArg UInt16.toNat hsize.2)⟩

/-! ## The sizes in the two headers -/

/-- The image header shows the record in RAM, and so does the JPEG header built behind
it. -/
def SizeInv (s : Server) : Prop :=
  match s.pc with
  | .logo _ len => s.send_logo = sendLogo len s.cam.SaveParaList
  | .header _ len g_header => s.send_logo = sendLogo len s.cam.SaveParaList ∧
      g_header = jpegHeader s.cam.SaveParaList
  | _ => True

/-- Outside the two headers nothing is said. -/
theorem sizeInv_of_ne {s : Server} (hlogo : ∀ b len, s.pc ≠ .logo b len)
    (hheader : ∀ b len g_header, s.pc ≠ .header b len g_header) : SizeInv s := by
  unfold SizeInv
  split
  · next hpc => exact absurd hpc (hlogo _ _)
  · next hpc => exact absurd hpc (hheader _ _ _)
  · trivial

theorem sizeInv_chunkPc {s : Server} {b : FrameBuf} {len i : Nat} (hpc : s.pc = chunkPc b len i) :
    SizeInv s := by
  unfold chunkPc at hpc
  split at hpc <;> exact sizeInv_of_ne (by simp [hpc]) (by simp [hpc])

/-- Behind the image header comes the JPEG header for the same record. -/
theorem sizeInv_part {s s' : Server} {e : Err} {b : FrameBuf} (h : SizeInv s)
    (hb : s.pc.imageOf = some b) (hpart : PartStep s e s') (hok : CamOk s.cam)
    (hok' : CamOk s'.cam) : SizeInv s' := by
  have hrecord : s'.cam.SaveParaList = s.cam.SaveParaList := by
    rw [← hok'.record, hpart.flash, hok.record]
  cases hgone : e.gone with
  | true =>
      have hpc' := hpart.pc_gone hgone
      exact sizeInv_of_ne (by simp [hpc']) (by simp [hpc'])
  | false =>
      have hpc' := hpart.pc_next hgone
      unfold SizeInv at h
      cases hpc : s.pc <;> simp only [hpc, Pc.imageOf, reduceCtorEq] at hb <;>
        simp only [hpc, Server.nextPc] at h hpc'
      case logo b' len =>
        rw [SizeInv, hpc', hrecord, hpart.send_logo]
        exact ⟨h, by rw [hok.record]⟩
      case header => exact sizeInv_chunkPc hpc'
      case chunk =>
        split at hpc'
        · exact sizeInv_chunkPc hpc'
        · exact sizeInv_of_ne (by simp [hpc']) (by simp [hpc'])
      case tail => exact sizeInv_of_ne (by simp [hpc']) (by simp [hpc'])
      case endMark => exact sizeInv_of_ne (by simp [hpc']) (by simp [hpc'])

/-- A decision of the thread begins an image or stays outside the headers. -/
theorem sizeInv_tick {s s' : Server} (h : tickStep s = some s') : SizeInv s' := by
  cases hpc : s.pc <;> simp only [tickStep, hpc, Option.some.injEq, reduceCtorEq] at h <;> subst h
  case readLen b =>
    unfold SizeInv
    rfl
  case idle =>
    rcases goOn_pc s s.err (.recv .idle) with hgo | hgo <;>
      exact sizeInv_of_ne (by simp [hgo]) (by simp [hgo])
  case ack b => cases b <;> exact trivial
  all_goals
    refine sizeInv_of_ne (fun b len => ?_) (fun b len g_header => ?_) <;> simp only <;> split <;>
      simp

/-- The answers to accepts and replies do not lead into an image. -/
theorem sizeInv_ret {s s' : Server} {e : Err} (hb : s.pc.imageOf = none)
    (h : retStep s e = some s') : SizeInv s' := by
  cases hpc : s.pc <;> simp only [hpc, Pc.imageOf, reduceCtorEq] at hb <;>
    simp only [retStep, hpc, reduceCtorEq] at h
  case accept =>
    split at h <;> simp only [Option.some.injEq] at h <;> subst h
    · exact trivial
    · exact trivial
  case reply ctx =>
    split at h <;> simp only [Option.some.injEq] at h <;> subst h
    · exact trivial
    · cases ctx <;> exact trivial

/-- **Every step keeps the sizes.** -/
theorem sizeInv_step (s : Server) (e : Event) (s' : Server) (h : CamOk s.cam ∧ SizeInv s)
    (hstep : step s e = some s') : CamOk s'.cam ∧ SizeInv s' := by
  have hok' := camOk_step s e s' h.1 hstep
  refine ⟨hok', ?_⟩
  cases e with
  | frame ws =>
      have hf := frameStep hstep
      have hinv := h.2
      unfold SizeInv at hinv ⊢
      rw [hf.pc, hf.send_logo, hf.cam]
      exact hinv
  | tick => exact sizeInv_tick hstep
  | ret err =>
      cases hb : s.pc.imageOf with
      | none => exact sizeInv_ret hb hstep
      | some b => exact sizeInv_part h.2 hb (partStep hb hstep) h.1 hok'
  | recvd chain stk =>
      obtain ⟨ctx, -, rfl⟩ := recvdStep_eq_some hstep
      refine sizeInv_of_ne (fun b len => ?_) (fun b len g_header => ?_) <;> simp only <;> split <;>
        simp
  | recvFail err =>
      obtain ⟨ctx, -, ⟨-, rfl⟩ | ⟨-, rfl⟩⟩ := recvFailStep_eq_some hstep
      · exact trivial
      · cases ctx <;> exact trivial
  | reboot mem =>
      simp only [step, Option.some.injEq] at hstep
      subst hstep
      exact trivial

/-- **Agreement**: in every reachable state the record in RAM is the one on flash, so
reading it again for an image changes nothing, and the sizes in the image header
are those for which the JPEG header behind it is made, and those that a decoder
finds in it. -/
theorem records_agree {f : Flash} {mem : FrameBuf → Nat → BitVec 32} {es : List Event} {s : Server}
    (hrun : run step (boot f mem) es = some s) :
    s.cam.SaveParaList = flashRecord s.cam.flash ∧
    (MT9D111_Greate_Header s.cam).1.SaveParaList = s.cam.SaveParaList ∧
    ∀ b len g_header, s.pc = .header b len g_header →
      g_header = (CreateJpegHeader (leVal ((s.send_logo.drop 12).take 2))
        (leVal ((s.send_logo.drop 14).take 2)) .YCBCR422 0x0020 9).bytes ∧
      ∃ ss d, JpegFormat.segments g_header = some ss ∧
        JpegFormat.Header.readAll {} ss = some d ∧
        d.frame.map (fun f => (f.height, f.width)) =
          some (leVal ((s.send_logo.drop 14).take 2), leVal ((s.send_logo.drop 12).take 2)) := by
  have hinv : CamOk s.cam ∧ SizeInv s :=
    run_invariant sizeInv_step ⟨camOk_boot f mem, trivial⟩ hrun
  refine ⟨hinv.1.record.symm, hinv.1.record, fun b len g_header hpc => ?_⟩
  have hsize := hinv.2
  rw [SizeInv, hpc] at hsize
  obtain ⟨hlogo, hheader⟩ := hsize
  have hdecode := size_of_sendLogo len s.cam.SaveParaList []
  rw [List.append_nil, ← hlogo] at hdecode
  have hwidth := s.cam.SaveParaList.size0.toNat_lt
  have hheight := s.cam.SaveParaList.size1.toNat_lt
  rw [hheader, hdecode.1, hdecode.2]
  exact ⟨rfl, readSize_CreateJpegHeader .YCBCR422 9 (by omega) (by omega) (by omega)⟩

/-- The JPEG header of the first image after the first boot. -/
theorem records_agree_first : ∃ s, run step (boot defaultFlash fun _ _ => 0)
      [.frame [1, 2, 3], .ret .ERR_OK, .tick, .tick, .ret .ERR_OK] = some s ∧
    ∃ g_header, s.pc = .header .jpeg_data_buf 12 g_header ∧
      g_header = (CreateJpegHeader (leVal ((s.send_logo.drop 12).take 2))
        (leVal ((s.send_logo.drop 14).take 2)) .YCBCR422 0x0020 9).bytes ∧
      ∃ ss d, JpegFormat.segments g_header = some ss ∧
        JpegFormat.Header.readAll {} ss = some d ∧
        d.frame.map (fun f => (f.height, f.width)) =
          some (leVal ((s.send_logo.drop 14).take 2), leVal ((s.send_logo.drop 12).take 2)) := by
  have hend : (run step (boot defaultFlash fun _ _ => 0)
      [.frame [1, 2, 3], .ret .ERR_OK, .tick, .tick]).map Server.pc =
      some (.logo .jpeg_data_buf 12) := by decide +kernel
  obtain ⟨t, ht, hlogo⟩ := Option.map_eq_some_iff.mp hend
  have hb : t.pc.imageOf = some .jpeg_data_buf := by rw [hlogo]; rfl
  obtain ⟨s, hs⟩ := step_ok hb
  have hpc : s.pc = .header .jpeg_data_buf 12 (jpegHeader (flashRecord t.cam.flash)) := by
    rw [(partStep hb hs).pc_next rfl, Server.nextPc, hlogo]
  have hrun : run step (boot defaultFlash fun _ _ => 0)
      ([.frame [1, 2, 3], .ret .ERR_OK, .tick, .tick] ++ [.ret .ERR_OK]) = some s := by
    rw [run_append, ht]
    exact run_cons_eq_some.mpr ⟨s, hs, rfl⟩
  exact ⟨s, hrun, _, hpc, (records_agree hrun).2.2 _ _ _ hpc⟩

end NetCamera
