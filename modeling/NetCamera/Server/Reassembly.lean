import NetCamera.Lib.Run
import NetCamera.Server.Step

/-!
# NetCamera.Server.Reassembly

The copy loop over a received chain, with the machine's own numbers.

`tcp_server_thread` has the loop three times: behind an image from either frame
buffer and in the idle branch.  `data_len` is a 32-bit local that lives across the
messages, the difference `TCP_SERVER_RX_BUFSIZE-data_len` is unsigned, and `memcpy`
stores to memory, so that a copy past the end of `tcp_server_recvbuf` would show.
The loop is left only where `data_len` exceeds the size, hence `data_len` is at most
the size at every difference (`copyPbufs_copies`); what it copies is the chain up to
the size (`mem_copyPbufs`), which is what the server polls (`recvBuf_elems`).
-/

namespace NetCamera

open Run

/-! ## The loop -/

/-- A buffer of a chain; its length is a `u16`. -/
structure Pbuf where
  payload : List UInt8
  small : payload.length < 65536

/-- `q->len`, widened. -/
def Pbuf.len (q : Pbuf) : UInt32 := UInt32.ofNat q.payload.length

/-- One pass of the loop: `data_len`, the difference, and the number of bytes copied. -/
structure Copy where
  data_len : UInt32
  room : UInt32
  n : UInt32
  deriving DecidableEq, Repr

/-- The memory from `tcp_server_recvbuf` on, `data_len`, and the copies made. -/
structure Recv where
  mem : Nat → UInt8
  data_len : UInt32
  copies : List Copy

/-- `memcpy` of `bs` to offset `off`. -/
def storeBytes (mem : Nat → UInt8) (off : Nat) (bs : List UInt8) : Nat → UInt8 := fun x =>
  if off ≤ x ∧ x < off + bs.length then bs.getD (x - off) 0 else mem x

/-- One pass: copy what fits, advance by the whole length. -/
def copyPbuf (q : Pbuf) (r : Recv) : Recv :=
  let room := 2000 - r.data_len
  let n := if q.len > room then room else q.len
  { mem := storeBytes r.mem r.data_len.toNat (q.payload.take n.toNat)
    data_len := r.data_len + q.len
    copies := r.copies ++ [⟨r.data_len, room, n⟩] }

/-- The loop over a chain. -/
def copyPbufs : List Pbuf → Recv → Recv
  | [], r => r
  | q :: chain, r =>
    let r := copyPbuf q r
    if r.data_len > 2000 then r else copyPbufs chain r

/-- `memset(tcp_server_recvbuf,0,TCP_SERVER_RX_BUFSIZE)`. -/
def clearRecvbuf (r : Recv) : Recv :=
  { r with mem := storeBytes r.mem 0 (List.replicate TCP_SERVER_RX_BUFSIZE 0) }

/-- A message is received at one of the three places. -/
def recvMessage : RecvCtx → List Pbuf → Recv → Recv
  | .image .jpeg_data_buf, chain, r => { copyPbufs chain (clearRecvbuf r) with data_len := 0 }
  | .image .jpeg_data_buf2, chain, r => { copyPbufs chain (clearRecvbuf r) with data_len := 0 }
  | .idle, chain, r => { copyPbufs chain (clearRecvbuf r) with data_len := 0 }

/-- One message after the other, at any of the places. -/
def recvStep (r : Recv) (m : RecvCtx × List Pbuf) : Option Recv :=
  some (recvMessage m.1 m.2 r)

/-- The bytes of a chain. -/
def chainBytes (chain : List Pbuf) : List UInt8 := chain.flatMap Pbuf.payload

/-! ## One pass -/

section pass

variable {q : Pbuf} {r : Recv}

theorem Pbuf.toNat_len (q : Pbuf) : q.len.toNat = q.payload.length := by
  rw [Pbuf.len, UInt32.toNat_ofNat']
  have := q.small
  omega

/-- The difference does not wrap. -/
theorem toNat_room (h : r.data_len.toNat ≤ 2000) :
    (2000 - r.data_len).toNat = 2000 - r.data_len.toNat := by
  rw [UInt32.toNat_sub_of_le _ _ (UInt32.le_iff_toNat_le.mpr h)]
  rfl

/-- As many bytes are copied as fit. -/
theorem toNat_copied (h : r.data_len.toNat ≤ 2000) :
    (if q.len > 2000 - r.data_len then 2000 - r.data_len else q.len).toNat =
      min q.payload.length (2000 - r.data_len.toNat) := by
  have hroom := toNat_room h
  have hlen := q.toNat_len
  split
  · next hgt =>
      rw [gt_iff_lt, UInt32.lt_iff_toNat_lt] at hgt
      omega
  · next hle =>
      rw [gt_iff_lt, UInt32.lt_iff_toNat_lt] at hle
      omega

theorem toNat_data_len_copyPbuf (h : r.data_len.toNat ≤ 2000) :
    (copyPbuf q r).data_len.toNat = r.data_len.toNat + q.payload.length := by
  have := q.small
  simp only [copyPbuf, UInt32.toNat_add, q.toNat_len]
  omega

theorem mem_copyPbuf (h : r.data_len.toNat ≤ 2000) : (copyPbuf q r).mem =
    storeBytes r.mem r.data_len.toNat (q.payload.take (2000 - r.data_len.toNat)) := by
  have htake : q.payload.take (min q.payload.length (2000 - r.data_len.toNat)) =
      q.payload.take (2000 - r.data_len.toNat) := List.take_eq_take_iff.mpr (by omega)
  simp only [copyPbuf, toNat_copied h, htake]

/-- A copy of the loop: its difference does not wrap, and it ends inside the buffer. -/
structure Copy.InBounds (c : Copy) : Prop where
  data_len : c.data_len.toNat ≤ 2000
  room : c.room.toNat = 2000 - c.data_len.toNat
  fits : c.data_len.toNat + c.n.toNat ≤ 2000

theorem copies_copyPbuf (h : r.data_len.toNat ≤ 2000) :
    ∃ c, (copyPbuf q r).copies = r.copies ++ [c] ∧ c.InBounds := by
  refine ⟨_, rfl, h, toNat_room h, ?_⟩
  simp only [toNat_copied h]
  omega

end pass

/-! ## The loop over a chain -/

theorem storeBytes_nil (mem : Nat → UInt8) (off : Nat) : storeBytes mem off [] = mem := by
  funext x
  rw [storeBytes, List.length_nil, if_neg (by omega)]

/-- Stores back to back are one store. -/
theorem storeBytes_append (mem : Nat → UInt8) (off : Nat) (as bs : List UInt8) :
    storeBytes (storeBytes mem off as) (off + as.length) bs = storeBytes mem off (as ++ bs) := by
  funext x
  simp only [storeBytes, List.length_append, List.getD_eq_getElem?_getD]
  by_cases hlow : x < off + as.length
  · rw [if_neg (by omega)]
    by_cases hoff : off ≤ x
    · rw [if_pos ⟨hoff, hlow⟩, if_pos (by omega), List.getElem?_append_left (by omega)]
    · rw [if_neg (by omega), if_neg (by omega)]
  · by_cases hhigh : x < off + as.length + bs.length
    · rw [if_pos (by omega), if_pos (by omega), List.getElem?_append_right (by omega),
        Nat.sub_sub]
    · rw [if_neg (by omega), if_neg (by omega), if_neg (by omega)]

section chain

variable {chain : List Pbuf} {r : Recv}

theorem copyPbufs_cons (q : Pbuf) (chain : List Pbuf) (h : r.data_len.toNat ≤ 2000) :
    copyPbufs (q :: chain) r =
      if r.data_len.toNat + q.payload.length > 2000 then copyPbuf q r
      else copyPbufs chain (copyPbuf q r) := by
  have hiff : (copyPbuf q r).data_len > 2000 ↔ r.data_len.toNat + q.payload.length > 2000 := by
    rw [gt_iff_lt, UInt32.lt_iff_toNat_lt, toNat_data_len_copyPbuf h]
    rfl
  rw [copyPbufs]
  simp only [hiff]

/-- **The loop stores the chain**, as far as it fits. -/
theorem mem_copyPbufs (h : r.data_len.toNat ≤ 2000) : (copyPbufs chain r).mem =
    storeBytes r.mem r.data_len.toNat ((chainBytes chain).take (2000 - r.data_len.toNat)) := by
  induction chain generalizing r with
  | nil => rw [copyPbufs, chainBytes, List.flatMap_nil, List.take_nil, storeBytes_nil]
  | cons q chain ih =>
      rw [copyPbufs_cons q chain h, chainBytes, List.flatMap_cons, ← chainBytes]
      split
      · -- the buffer is full
        rw [mem_copyPbuf h, List.take_append_of_le_length (by omega)]
      · have hnext := toNat_data_len_copyPbuf (q := q) h
        have hwhole : q.payload.take (2000 - r.data_len.toNat) = q.payload :=
          List.take_of_length_le (by omega)
        rw [ih (by omega), mem_copyPbuf h, hnext, hwhole, storeBytes_append, List.take_append,
          hwhole, Nat.sub_sub]

/-- **No copy leaves the buffer**, and no difference wraps. -/
theorem copyPbufs_copies (h : r.data_len.toNat ≤ 2000) :
    ∃ cs, (copyPbufs chain r).copies = r.copies ++ cs ∧ ∀ c ∈ cs, c.InBounds := by
  induction chain generalizing r with
  | nil => exact ⟨[], (List.append_nil _).symm, fun _ hc => absurd hc List.not_mem_nil⟩
  | cons q chain ih =>
      obtain ⟨c, hc, hin⟩ := copies_copyPbuf (q := q) h
      rw [copyPbufs_cons q chain h]
      split
      · exact ⟨[c], hc, List.forall_mem_singleton.mpr hin⟩
      · have hnext := toNat_data_len_copyPbuf (q := q) h
        obtain ⟨cs, hcs, hall⟩ := ih (r := copyPbuf q r) (by omega)
        refine ⟨c :: cs, ?_, List.forall_mem_cons.mpr ⟨hin, hall⟩⟩
        rw [hcs, hc, List.append_assoc, List.singleton_append]

end chain

/-! ## What the server polls -/

/-- The server's loop writes the chain as far as it fits. -/
theorem copyChain_eq {k : Nat} (h : k ≤ TCP_SERVER_RX_BUFSIZE) (payloads : List (List UInt8))
    (buf : RecvBuf) : copyChain payloads k buf =
      buf.write k (payloads.flatten.take (TCP_SERVER_RX_BUFSIZE - k)) := by
  induction payloads generalizing k buf with
  | nil => rw [copyChain, List.flatten_nil, List.take_nil, Buf.write_nil]
  | cons payload q ih =>
      rw [copyChain, List.flatten_cons]
      by_cases hfull : k + payload.length > TCP_SERVER_RX_BUFSIZE
      · rw [if_pos hfull, if_pos (by omega), List.take_append_of_le_length (by omega)]
      · have hwhole : payload.take (TCP_SERVER_RX_BUFSIZE - k) = payload :=
          List.take_of_length_le (by omega)
        rw [if_neg hfull, if_neg (by omega), ih (by omega), List.take_append, hwhole,
          Buf.write_append, Nat.sub_sub]

/-- What `PollMessage` is given: the bytes received, cut or filled up with zeros. -/
theorem recvBuf_elems (chain : List (List UInt8)) :
    (recvBuf chain).elems = (chain.flatten ++ List.replicate 2000 0).take 2000 := by
  have hsize : TCP_SERVER_RX_BUFSIZE = 2000 := rfl
  have hfit : 0 + (chain.flatten.take (TCP_SERVER_RX_BUFSIZE - 0)).length ≤
      TCP_SERVER_RX_BUFSIZE := by
    rw [List.length_take]
    omega
  rw [recvBuf, copyChain_eq (Nat.zero_le _), Buf.elems_write _ hfit, Buf.elems_fill,
    List.take_zero, List.nil_append, List.drop_replicate, List.length_take, List.take_append,
    List.take_replicate, hsize]
  congr 2
  omega

/-- A list cut or padded to `n` elements, element by element. -/
theorem padded_eq {n : Nat} {bs : List UInt8} {mem : Nat → UInt8}
    (h : ∀ i < n, mem i = (bs.take n).getD i 0) :
    (bs ++ List.replicate n 0).take n = (List.range n).map mem := by
  refine List.ext_getElem (by simp) fun i hi hi' => ?_
  have hlt : i < n := by simpa using hi'
  rw [List.getElem_map, List.getElem_range, h i hlt, List.getElem_take, List.getElem_append,
    List.getD_eq_getElem?_getD, List.getElem?_take_of_lt hlt]
  split
  · next hin => rw [List.getElem?_eq_getElem hin, Option.getD_some]
  · next hout => rw [List.getElem?_eq_none (by omega), List.getElem_replicate, Option.getD_none]

/-! ## Whole messages -/

/-- What one message leaves behind: the received bytes and zeros in the buffer, which is what
the server polls, nothing behind it, no copy out of bounds, and `data_len` at 0 again. -/
structure Reassembled (chain : List Pbuf) (r r' : Recv) : Prop where
  contents : ∀ i < 2000, r'.mem i = ((chainBytes chain).take 2000).getD i 0
  polled : (recvBuf (chain.map Pbuf.payload)).elems = (List.range 2000).map r'.mem
  behind : ∀ i ≥ 2000, r'.mem i = r.mem i
  copies : ∃ cs, r'.copies = r.copies ++ cs ∧ ∀ c ∈ cs, c.InBounds
  cleared : r'.data_len = 0

/-- The three places do the same. -/
theorem recvMessage_eq (ctx : RecvCtx) (chain : List Pbuf) (r : Recv) :
    recvMessage ctx chain r = { copyPbufs chain (clearRecvbuf r) with data_len := 0 } := by
  cases ctx with
  | image b => cases b <;> rfl
  | idle => rfl

theorem data_len_clearRecvbuf (r : Recv) : (clearRecvbuf r).data_len = r.data_len := by
  simp only [clearRecvbuf]

theorem copies_clearRecvbuf (r : Recv) : (clearRecvbuf r).copies = r.copies := by
  simp only [clearRecvbuf]

/-- The cleared buffer. -/
theorem mem_clearRecvbuf (r : Recv) (x : Nat) :
    (clearRecvbuf r).mem x = if x < TCP_SERVER_RX_BUFSIZE then 0 else r.mem x := by
  rw [clearRecvbuf]
  generalize TCP_SERVER_RX_BUFSIZE = n
  simp only [storeBytes, List.length_replicate, Nat.zero_le, true_and, Nat.zero_add, Nat.sub_zero]
  split
  · next hx => simp [List.getD_eq_getElem?_getD, hx]
  · rfl

theorem reassembled_recvMessage {r : Recv} (h : r.data_len = 0) (ctx : RecvCtx)
    (chain : List Pbuf) : Reassembled chain r (recvMessage ctx chain r) := by
  have hzero : (clearRecvbuf r).data_len.toNat = 0 := by
    rw [data_len_clearRecvbuf, h, UInt32.toNat_zero]
  have hle : (clearRecvbuf r).data_len.toNat ≤ 2000 :=
    Nat.le_trans (Nat.le_of_eq hzero) (Nat.zero_le _)
  have hlen : ((chainBytes chain).take 2000).length ≤ 2000 := List.length_take_le _ _
  have hmem : ∀ x, (recvMessage ctx chain r).mem x =
      if x < ((chainBytes chain).take 2000).length then ((chainBytes chain).take 2000).getD x 0
      else if x < 2000 then 0 else r.mem x := by
    intro x
    rw [recvMessage_eq]
    show (copyPbufs chain (clearRecvbuf r)).mem x = _
    rw [mem_copyPbufs hle, hzero, storeBytes, mem_clearRecvbuf]
    simp only [Nat.zero_le, true_and, Nat.zero_add, Nat.sub_zero]
    rfl
  have hcontents : ∀ i < 2000, (recvMessage ctx chain r).mem i =
      ((chainBytes chain).take 2000).getD i 0 := by
    intro i hi
    rw [hmem]
    split
    · rfl
    · next hge =>
        rw [List.getD_eq_getElem?_getD, List.getElem?_eq_none (by omega), Option.getD_none]
  refine ⟨hcontents, ?_, fun i hi => ?_, ?_, ?_⟩
  · have hbytes : (chain.map Pbuf.payload).flatten = chainBytes chain := List.flatMap_def.symm
    rw [recvBuf_elems, hbytes]
    exact padded_eq hcontents
  · rw [hmem, if_neg (by omega), if_neg (by omega)]
  · rw [recvMessage_eq, ← copies_clearRecvbuf r]
    exact copyPbufs_copies hle
  · rw [recvMessage_eq]

/-- **Reassembly**, message after message and at whichever of the three places each is
received. -/
theorem reassembly_ok (mem : Nat → UInt8) (ms : List (RecvCtx × List Pbuf)) :
    Steps recvStep (fun r m => r.data_len = 0 ∧ Reassembled m.2 r (recvMessage m.1 m.2 r) ∧
      ∀ ctx, recvMessage ctx m.2 r = recvMessage m.1 m.2 r) ⟨mem, 0, []⟩ ms := by
  refine steps_of_invariant (I := fun r : Recv => r.data_len = 0) ?_ ?_ rfl
  · intro r m r' hr hstep
    cases hstep
    exact (reassembled_recvMessage hr m.1 m.2).cleared
  · intro r m hr
    refine ⟨hr, reassembled_recvMessage hr m.1 m.2, fun ctx => ?_⟩
    rw [recvMessage_eq, recvMessage_eq m.1]

end NetCamera
