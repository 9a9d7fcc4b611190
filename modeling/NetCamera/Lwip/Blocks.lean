import NetCamera.Lwip.Mem

/-!
# NetCamera.Lwip.Blocks

What the functions of the heap do to its blocks.

`Lays h cs` says that the cells `cs` tile the heap and have their headers there.  Everything the
functions write is of three kinds: a block changes hands (`Lays.mark`), two become one
(`Lays.join`), and one is cut (`Lays.cut`).  `Blocks h cs` adds what the functions rely on: no two
neighbours are free, and `lfree` is the lowest that is.
-/

namespace NetCamera.Lwip

open Tiling

namespace MemHeap

/-! ## Cutting -/

section Cut

variable {h : MemHeap} {ptr ptr2 nxt a : Nat}

theorem bytes_cut (ha : a < ptr ∨ ptr + 8 ≤ a) (ha2 : a < ptr2 ∨ ptr2 + 8 ≤ a) :
    (h.cut ptr ptr2 nxt).bytes a = h.bytes a := by
  rw [cut, bytes_setNext _ _ _ ha, bytes_setPrev _ _ _ ha2, bytes_setNext _ _ _ ha2,
    bytes_setUsed _ _ _ ha2]

theorem hdr_cut_left (hlt : ptr + 8 ≤ ptr2) (hptr2 : ptr2 < 65536) :
    (h.cut ptr ptr2 nxt).hdr ptr = { h.hdr ptr with next := ptr2 } := by
  rw [cut, hdr_setNext hptr2, hdr_congr fun a _ ha => ?_]
  rw [bytes_setPrev _ _ _ (by omega), bytes_setNext _ _ _ (by omega),
    bytes_setUsed _ _ _ (by omega)]

theorem hdr_cut_right (hlt : ptr + 8 ≤ ptr2) (hptr2 : ptr2 < 65536) (hnxt : nxt < 65536) :
    (h.cut ptr ptr2 nxt).hdr ptr2 = ⟨nxt, ptr, false⟩ := by
  have hfront : (h.cut ptr ptr2 nxt).hdr ptr2 =
      (((h.setUsed ptr2 0).setNext ptr2 nxt).setPrev ptr2 ptr).hdr ptr2 :=
    hdr_congr fun a ha _ => bytes_setNext _ _ _ (by omega)
  rw [hfront, hdr_setPrev (by omega), hdr_setNext hnxt, hdr_setUsed]
  rfl

theorem bytes_linkBack (ha : a < h.next ptr2 ∨ h.next ptr2 + 8 ≤ a) :
    (h.linkBack ptr2).bytes a = h.bytes a := by
  rw [linkBack]
  split
  · exact bytes_setPrev _ _ _ ha
  · rfl

theorem setUsed_self (h : MemHeap) (p : Nat) : h.setUsed p (h.used p) = h := by
  rw [setUsed, used, Function.update_eq_self]

end Cut

/-! ## The blocks in the heap -/

structure Lays (h : MemHeap) (cs : List (Cell Nat)) : Prop where
  laid : Laid h.hdr 0 0 cs
  extent_eq : extent cs = 16000
  sizes : ∀ c ∈ cs, 20 ≤ c.len ∧ c.len % 4 = 0
  stop : (h.hdr 16000).used = true

namespace Lays

variable {h h' : MemHeap} {pre mid mid' post : List (Cell Nat)} {b c d : Cell Nat}

theorem extent_mod (hl : h.Lays (pre ++ (mid ++ post))) : extent mid % 4 = 0 :=
  Nat.mod_eq_zero_of_dvd (dvd_extent fun c hc =>
    Nat.dvd_of_mod_eq_zero (hl.sizes c (by simp [hc])).2)

theorem setLfree (hl : h.Lays mid) (l : Nat) : Lays { h with lfree := l } mid :=
  ⟨hl.laid, hl.extent_eq, hl.sizes, hl.stop⟩

theorem len_ge (hl : h.Lays mid) : ∀ c ∈ mid, 8 ≤ c.len := fun c hc => by
  have := hl.sizes c hc
  omega

/-- What is written between two parts of the heap. -/
theorem replace (mid mid' : List (Cell Nat)) (hl : h.Lays (pre ++ (mid ++ post)))
    (hbefore : ∀ a < extent pre, h'.bytes a = h.bytes a)
    (hmid : Laid h'.hdr (lastAt 0 0 pre) (extent pre) mid')
    (hextent : extent mid' = extent mid) (hsizes : ∀ c ∈ mid', 20 ≤ c.len ∧ c.len % 4 = 0)
    {q : Nat} (hseam : h'.hdr (extent pre + extent mid) =
      { h.hdr (extent pre + extent mid) with prev := q })
    (hq : post ≠ [] → q = lastAt (lastAt 0 0 pre) (extent pre) mid')
    (hbehind : ∀ a, extent pre + extent mid + 8 ≤ a → h'.bytes a = h.bytes a) :
    h'.Lays (pre ++ (mid' ++ post)) := by
  have hlen := hl.len_ge
  simp only [List.forall_mem_append] at hlen
  have htotal := hl.extent_eq
  simp only [extent_append] at htotal
  have hall := hl.sizes
  simp only [List.forall_mem_append] at hall
  have hlaid := hl.laid
  simp only [laid_append, Nat.zero_add] at hlaid
  obtain ⟨hpre, -, hpost⟩ := hlaid
  have hpost' : Laid h'.hdr (lastAt (lastAt 0 0 pre) (extent pre) mid')
      (extent pre + extent mid) post :=
    hpost.relink hlen.2.2 (fun hne => hq hne ▸ hseam) fun a hle _ =>
      hdr_congr fun x hx _ => hbehind x (by omega)
  refine ⟨?_, ?_, ?_, ?_⟩
  · simp only [laid_append, Nat.zero_add, hextent]
    exact ⟨hpre.congr hlen.1 fun a _ hend => hdr_congr fun x _ hx => hbefore x (by omega),
      hmid, hpost'⟩
  · simp only [extent_append, hextent]
    exact htotal
  · simp only [List.forall_mem_append]
    exact ⟨hall.1, hsizes, hall.2.2⟩
  · cases post with
    | nil =>
        rw [extent_nil] at htotal
        have hend : extent pre + extent mid = 16000 := by omega
        rw [hend] at hseam
        rw [hseam]
        exact hl.stop
    | cons d ds =>
        have hd := hlen.2.2 d List.mem_cons_self
        rw [extent_cons] at htotal
        rw [hdr_congr fun x hx _ => hbehind x (by omega), hl.stop]

/-- The header of a block. -/
theorem hdr_eq (hl : h.Lays (pre ++ c :: post)) :
    h.hdr (extent pre) = ⟨extent pre + c.len, lastAt 0 0 pre, c.owner.isSome⟩ := by
  have hlaid := hl.laid
  rw [laid_append, Nat.zero_add] at hlaid
  exact (laid_cons.mp hlaid.2).1

theorem next_eq (hl : h.Lays (pre ++ c :: post)) : h.next (extent pre) = extent pre + c.len := by
  rw [next_eq_hdr, hl.hdr_eq]

theorem prev_eq (hl : h.Lays (pre ++ c :: post)) : h.prev (extent pre) = lastAt 0 0 pre := by
  rw [prev_eq_hdr, hl.hdr_eq]

theorem used_eq_zero_iff (hl : h.Lays (pre ++ c :: post)) :
    h.used (extent pre) = 0 ↔ c.Free := by
  rw [MemHeap.used_eq_zero_iff, hl.hdr_eq]
  simp [Cell.Free]

/-- The header behind a block, whose `prev` is that block. -/
theorem seam (mid : List (Cell Nat)) (hl : h.Lays (pre ++ (mid ++ post))) :
    ∃ q, h.hdr (extent pre + extent mid) = { h.hdr (extent pre + extent mid) with prev := q } ∧
      (post ≠ [] → q = lastAt (lastAt 0 0 pre) (extent pre) mid) := by
  refine ⟨(h.hdr (extent pre + extent mid)).prev, rfl, fun hne => ?_⟩
  cases post with
  | nil => exact absurd rfl hne
  | cons d ds =>
      have hlaid := hl.laid
      simp only [laid_append, Nat.zero_add] at hlaid
      rw [(laid_cons.mp hlaid.2.2).1]

/-- A block and where it ends. -/
theorem bound (hl : h.Lays (pre ++ c :: post)) :
    extent pre + c.len + extent post = 16000 ∧ 20 ≤ c.len ∧ c.len % 4 = 0 := by
  have htotal := hl.extent_eq
  rw [extent_append, extent_cons] at htotal
  have := hl.sizes c (by simp)
  omega

/-- A block changes hands. -/
theorem mark (hl : h.Lays (pre ++ c :: post)) (b : UInt8) {o : Option Nat}
    (ho : o.isSome = decide (b ≠ 0)) :
    (h.setUsed (extent pre) b).Lays (pre ++ ⟨c.len, o⟩ :: post) := by
  have hbound := hl.bound
  obtain ⟨q, hseam, hq⟩ := seam [c] hl
  simp only [extent_cons, extent_nil, Nat.add_zero] at hseam
  refine replace [c] [⟨c.len, o⟩] hl (q := q)
    (fun a ha => bytes_setUsed _ _ _ (.inl ha)) ?_ rfl ?_ ?_ hq
    fun a ha => bytes_setUsed _ _ _ (.inr ?_)
  · rw [laid_cons, hdr_setUsed, hl.hdr_eq, ho]
    exact ⟨rfl, trivial⟩
  · simpa using hbound.2
  · simp only [extent_cons, extent_nil, Nat.add_zero]
    rw [← hseam]
    exact hdr_congr fun a ha _ => bytes_setUsed _ _ _ (.inr (by omega))
  · simp only [extent_cons, extent_nil] at ha
    omega

/-- Two blocks become one. -/
theorem join (hl : h.Lays (pre ++ c :: d :: post)) :
    ((h.setNext (extent pre) (extent pre + (c.len + d.len))).setPrev
      (extent pre + (c.len + d.len)) (extent pre)).Lays
      (pre ++ ⟨c.len + d.len, c.owner⟩ :: post) := by
  have hc := hl.bound
  have hl' : h.Lays ((pre ++ [c]) ++ d :: post) := by simpa using hl
  have hd := hl'.bound
  simp only [extent_append, extent_cons, extent_nil] at hc hd
  refine replace [c, d] [⟨c.len + d.len, c.owner⟩] hl (q := extent pre)
    (fun a ha => ?_) ?_ (by simp) ?_ ?_ (fun _ => rfl) fun a ha => ?_
  · rw [bytes_setPrev _ _ _ (by omega), bytes_setNext _ _ _ (by omega)]
  · rw [laid_cons, hdr_congr fun a _ ha => bytes_setPrev _ _ _ (by omega),
      hdr_setNext (by omega), hl.hdr_eq]
    exact ⟨rfl, trivial⟩
  · simp only [List.mem_singleton, forall_eq]
    omega
  · simp only [extent_cons, extent_nil, Nat.add_zero]
    rw [hdr_setPrev (by omega), hdr_congr fun a ha _ => bytes_setNext _ _ _ (by omega)]
  · simp only [extent_cons, extent_nil] at ha
    rw [bytes_setPrev _ _ _ (by omega), bytes_setNext _ _ _ (by omega)]

/-- A block, or two, is cut anew. -/
theorem cut (mid : List (Cell Nat)) (hl : h.Lays (pre ++ (c :: mid ++ post))) {n : Nat}
    {o : Option Nat} {b : UInt8} (ho : o.isSome = decide (b ≠ 0)) (hn : 20 ≤ n ∧ n % 4 = 0)
    (hrest : n + 20 ≤ extent (c :: mid)) :
    (((h.cut (extent pre) (extent pre + n) (extent pre + extent (c :: mid))).setUsed (extent pre)
      b).linkBack (extent pre + n)).Lays
        (pre ++ (⟨n, o⟩ :: ⟨extent (c :: mid) - n, none⟩ :: post)) := by
  have hhead : h.Lays (pre ++ c :: (mid ++ post)) := hl
  have htotal := hl.extent_eq
  have hdiv : extent (c :: mid) % 4 = 0 := hl.extent_mod
  simp only [extent_append] at htotal
  obtain ⟨q, hseam, -⟩ := seam (c :: mid) hl
  generalize hm : extent (c :: mid) = m at *
  generalize hk : (h.cut (extent pre) (extent pre + n) (extent pre + m)).setUsed (extent pre) b = k
  have hleft : k.hdr (extent pre) = ⟨extent pre + n, lastAt 0 0 pre, o.isSome⟩ := by
    rw [← hk, hdr_setUsed, hdr_cut_left (by omega) (by omega), hhead.hdr_eq, ho]
  have hright : k.hdr (extent pre + n) = ⟨extent pre + m, extent pre, false⟩ := by
    rw [← hk, hdr_congr fun a ha _ => bytes_setUsed _ _ _ (by omega),
      hdr_cut_right (by omega) (by omega) (by omega)]
  have hnext : k.next (extent pre + n) = extent pre + m := by rw [next_eq_hdr, hright]
  have hbytes : ∀ a, a < extent pre ∨ extent pre + m ≤ a → k.bytes a = h.bytes a := by
    intro a ha
    rw [← hk, bytes_setUsed _ _ _ (by omega), bytes_cut (by omega) (by omega)]
  have hback : ∀ a, a < extent pre + m ∨ extent pre + m + 8 ≤ a →
      (k.linkBack (extent pre + n)).bytes a = k.bytes a := by
    intro a ha
    exact bytes_linkBack (by rw [hnext]; omega)
  refine replace (c :: mid) [⟨n, o⟩, ⟨m - n, none⟩] hl
    (q := if extent pre + m ≠ 16000 then extent pre + n else q)
    (fun a ha => ?_) ?_ ?_ ?_ ?_ (fun hne => ?_) fun a ha => ?_
  · rw [hback a (by omega), hbytes a (by omega)]
  · refine laid_cons.mpr ⟨?_, laid_cons.mpr ⟨?_, trivial⟩⟩
    · rw [hdr_congr fun a _ ha => hback a (by omega), hleft]
    · change (k.linkBack (extent pre + n)).hdr (extent pre + n) = _
      rw [hdr_congr fun a _ ha => hback a (by omega), hright]
      simp only [Option.isSome_none, Header.mk.injEq, and_true]
      omega
  · simp only [extent_cons, extent_nil] at hm ⊢
    omega
  · simp only [List.forall_mem_cons, List.not_mem_nil, false_implies, implies_true, and_true]
    omega
  · rw [hm, linkBack, hnext]
    split
    · next hne =>
        rw [if_pos (by simpa [MEM_SIZE_ALIGNED] using hne), hdr_setPrev (by omega),
          hdr_congr fun a ha _ => hbytes a (by omega)]
    · next hne =>
        rw [if_neg (by simpa [MEM_SIZE_ALIGNED] using hne),
          hdr_congr fun a ha _ => hbytes a (by omega), ← hseam]
  · have hpost : 20 ≤ extent post := by
      obtain ⟨d, ds, rfl⟩ := List.exists_cons_of_ne_nil hne
      have := (hl.sizes d (by simp)).1
      rw [extent_cons]
      omega
    rw [if_pos (by omega)]
    rfl
  · rw [hm] at ha
    rw [hback a (by omega), hbytes a (by omega)]

end Lays

/-! ## The loops -/

section Loops

variable {h : MemHeap} {cs : List (Cell Nat)} {prev o size fuel : Nat}

theorem room_eq {c : Cell Nat} (hlaid : Laid h.hdr prev o (c :: cs)) (hlen : 20 ≤ c.len)
    (hend : o + c.len ≤ 16000) : h.room o = c.len - 8 := by
  rw [room, next_eq_hdr, (laid_cons.mp hlaid).1, sub32, SIZEOF_STRUCT_MEM]
  dsimp only
  omega

theorem used_eq_zero_iff_of_laid {c : Cell Nat} (hlaid : Laid h.hdr prev o (c :: cs)) :
    h.used o = 0 ↔ c.Free := by
  rw [used_eq_zero_iff, (laid_cons.mp hlaid).1]
  simp [Cell.Free]

theorem next_eq_of_laid {c : Cell Nat} (hlaid : Laid h.hdr prev o (c :: cs)) :
    h.next o = o + c.len := by
  rw [next_eq_hdr, (laid_cons.mp hlaid).1]

/-- The scan is first fit: where it stops early, no block that is left is large enough. -/
theorem scan_eq (hlaid : Laid h.hdr prev o cs) (hlen : ∀ c ∈ cs, 20 ≤ c.len)
    (hend : o + extent cs = 16000) (hfuel : cs.length < fuel) :
    h.scan size fuel o = some (firstFit (size + 8) o cs) := by
  induction cs generalizing prev o fuel with
  | nil =>
      obtain ⟨fuel, rfl⟩ : ∃ k, fuel = k + 1 := ⟨fuel - 1, by omega⟩
      rw [extent_nil] at hend
      rw [scan, if_neg (by simp only [MEM_SIZE_ALIGNED]; omega)]
      rfl
  | cons c cs ih =>
      obtain ⟨fuel, rfl⟩ : ∃ k, fuel = k + 1 := ⟨fuel - 1, by omega⟩
      have hall := hlen
      rw [List.forall_mem_cons] at hlen
      have htotal := hend
      rw [extent_cons] at hend
      rw [scan, MEM_SIZE_ALIGNED]
      split
      · have hiff : h.used o = 0 ∧ size ≤ h.room o ↔ c.Free ∧ size + 8 ≤ c.len := by
          rw [used_eq_zero_iff_of_laid hlaid, room_eq hlaid hlen.1 (by omega)]
          exact and_congr_right fun _ => by omega
        rw [if_congr hiff rfl rfl, firstFit_cons, next_eq_of_laid hlaid]
        split
        · rfl
        · exact ih (laid_cons.mp hlaid).2 hlen.2 (by omega)
            (by rw [List.length_cons] at hfuel; omega)
      · next hlate =>
          rw [Option.some.injEq, eq_comm, firstFit, Option.map_eq_none_iff, List.find?_eq_none]
          intro x hx hfit
          have hbounds := placed_bounds hx
          rw [decide_eq_true_eq] at hfit
          omega

/-- The loop behind a block that was taken finds the lowest free one. -/
theorem nextFree_eq (hlaid : Laid h.hdr prev o cs) (hlen : ∀ c ∈ cs, 20 ≤ c.len)
    (hend : o + extent cs = 16000) (hfuel : cs.length < fuel) :
    ∃ l, h.nextFree fuel o = some l ∧ Lowest o cs l := by
  induction cs generalizing prev o fuel with
  | nil =>
      obtain ⟨fuel, rfl⟩ : ∃ k, fuel = k + 1 := ⟨fuel - 1, by omega⟩
      refine ⟨o, ?_, by simp, .inl rfl⟩
      rw [extent_nil] at hend
      rw [nextFree, if_neg (by simp only [MEM_SIZE_ALIGNED]; omega)]
  | cons c cs ih =>
      obtain ⟨fuel, rfl⟩ : ∃ k, fuel = k + 1 := ⟨fuel - 1, by omega⟩
      rw [List.forall_mem_cons] at hlen
      rw [extent_cons] at hend
      rw [List.length_cons] at hfuel
      by_cases hfree : c.Free
      · refine ⟨o, ?_, fun x hx _ => (placed_bounds hx).1, .inr ⟨c, by simp, hfree⟩⟩
        rw [nextFree, if_neg fun h => h.1 ((used_eq_zero_iff_of_laid hlaid).mpr hfree)]
      · obtain ⟨l, hl, hlow⟩ := ih (laid_cons.mp hlaid).2 hlen.2 (by omega) (by omega : _ < fuel)
        refine ⟨l, ?_, hlow.append [c] (by simpa using hfree)⟩
        rw [nextFree, if_pos ⟨fun h => hfree ((used_eq_zero_iff_of_laid hlaid).mp h),
          by simp only [MEM_SIZE_ALIGNED]; omega⟩, next_eq_of_laid hlaid, hl]

end Loops

/-! ## What the functions do -/

/-- What holds of the blocks between any two calls. -/
structure Blocks (h : MemHeap) (cs : List (Cell Nat)) : Prop extends h.Lays cs where
  merged : Merged cs
  fits : ∀ x ∈ owned 0 cs, ∀ n ∈ x.2.owner, n + 8 ≤ x.2.len
  lowest : Lowest 0 cs h.lfree

/-- What a free block becomes when `n` bytes are asked for. -/
def carve (n : Nat) (c : Cell Nat) : List (Cell Nat) :=
  if n + 28 ≤ c.len then [⟨n + 8, some n⟩, ⟨c.len - (n + 8), none⟩] else [⟨c.len, some n⟩]

theorem length_lt {h : MemHeap} {cs : List (Cell Nat)} (hl : h.Lays cs) : cs.length < 16000 := by
  have := length_le_extent fun c hc => (hl.sizes c hc).1
  rw [hl.extent_eq] at this
  omega

/-- The scan from `lfree` on finds what a scan of all blocks would. -/
theorem Blocks.scan_eq {h : MemHeap} {cs : List (Cell Nat)} (hb : h.Blocks cs) (size : Nat) :
    h.scan size MEM_SIZE_ALIGNED h.lfree = some (firstFit (size + 8) 0 cs) := by
  obtain ⟨pre, post, rfl, hl, hpre⟩ := hb.lowest.split fun c hc => by
    have := (hb.sizes c hc).1
    omega
  have hlaid := hb.laid
  rw [laid_append] at hlaid
  have htotal := hb.extent_eq
  rw [extent_append] at htotal
  have hlen := length_lt hb.toLays
  rw [List.length_append] at hlen
  rw [hl, firstFit_append hpre, Nat.zero_add] at *
  exact MemHeap.scan_eq hlaid.2 (fun c hc => (hb.sizes c (by simp [hc])).1) htotal
    (by rw [MEM_SIZE_ALIGNED]; omega)

variable {h : MemHeap} {pre post : List (Cell Nat)} {c : Cell Nat}

/-- The block found is carved. -/
theorem Blocks.take (hb : h.Blocks (pre ++ c :: post)) {n : Nat} (hn : 12 ≤ n ∧ n % 4 = 0)
    (hfit : n + 8 ≤ c.len) :
    (h.take (extent pre) n).Lays (pre ++ (carve n c ++ post)) := by
  have hbound := hb.bound
  have hlaid := hb.laid
  rw [laid_append, Nat.zero_add] at hlaid
  rw [MemHeap.take, room_eq hlaid.2 hbound.2.1 (by omega), SIZEOF_STRUCT_MEM, MIN_SIZE_ALIGNED,
    carve]
  split
  · next hsplit =>
      rw [if_pos (by omega), hb.next_eq, memSize, Nat.mod_eq_of_lt (by omega)]
      have hcut := Lays.cut [] hb.toLays (n := n + 8) (o := some n) (b := 1) (by simp) (by omega)
        (by simp only [extent_cons, extent_nil]; omega)
      simpa [Nat.add_assoc, Nat.add_comm 8 n] using hcut
  · rw [if_neg (by omega)]
    exact hb.mark 1 (by simp)

theorem ram_linkBack (h : MemHeap) (ptr2 : Nat) : (h.linkBack ptr2).ram = h.ram := by
  rw [linkBack]
  split <;> rfl

theorem lfree_linkBack (h : MemHeap) (ptr2 : Nat) : (h.linkBack ptr2).lfree = h.lfree := by
  rw [linkBack]
  split <;> rfl

theorem lfree_cut (h : MemHeap) (ptr ptr2 nxt : Nat) : (h.cut ptr ptr2 nxt).lfree = h.lfree := rfl

theorem ram_take (h : MemHeap) (ptr n : Nat) : (h.take ptr n).ram = h.ram := by
  rw [MemHeap.take]
  split
  · exact ram_linkBack _ _
  · rfl

theorem lfree_take (h : MemHeap) (ptr n : Nat) : (h.take ptr n).lfree = h.lfree := by
  rw [MemHeap.take]
  split
  · exact lfree_linkBack _ _
  · rfl

/-- Bytes outside the block and the header behind it are left as they are. -/
theorem Lays.bytes_take (hl : h.Lays (pre ++ c :: post)) {n a : Nat} (hfit : n + 8 ≤ c.len)
    (ha : a < extent pre ∨ extent pre + c.len + 8 ≤ a) :
    (h.take (extent pre) n).bytes a = h.bytes a := by
  have hbound := hl.bound
  have hlaid := hl.laid
  rw [laid_append, Nat.zero_add] at hlaid
  rw [MemHeap.take, room_eq hlaid.2 hbound.2.1 (by omega), SIZEOF_STRUCT_MEM, MIN_SIZE_ALIGNED]
  split
  · rw [hl.next_eq, memSize, Nat.mod_eq_of_lt (by omega)]
    have hnext : ((h.cut (extent pre) (extent pre + 8 + n) (extent pre + c.len)).setUsed
        (extent pre) 1).next (extent pre + 8 + n) = extent pre + c.len := by
      rw [next_eq_hdr, hdr_congr fun a ha _ => bytes_setUsed _ _ _ (by omega),
        hdr_cut_right (by omega) (by omega) (by omega)]
    rw [bytes_linkBack (by rw [hnext]; omega), bytes_setUsed _ _ _ (by omega),
      bytes_cut (by omega) (by omega)]
  · exact bytes_setUsed _ _ _ (by omega)

/-- A request that no free block is large enough for is refused. -/
theorem Blocks.mem_malloc_none {cs : List (Cell Nat)} (hb : h.Blocks cs) {size : Nat}
    (hnone : size = 0 ∨ firstFit (blockSize size + 8) 0 cs = none) :
    h.mem_malloc size = some (0, h) := by
  rw [MemHeap.mem_malloc]
  by_cases hzero : size = 0
  · rw [if_pos hzero]
  · rw [if_neg hzero]
    dsimp only
    split
    · rfl
    · rw [hb.scan_eq, hnone.resolve_left hzero]
      rfl

theorem merged_carve (hm : Merged (pre ++ c :: post)) (hfree : c.Free) (n : Nat) :
    Merged (pre ++ (carve n c ++ post)) := by
  obtain ⟨hpre, hpost, hnear⟩ := merged_split.mp hm
  have hrest : Merged (⟨c.len - (n + 8), none⟩ :: post) :=
    merged_cons.mpr ⟨hpost, fun _ => (hnear hfree).2⟩
  rw [carve]
  split
  · exact merged_split.mpr ⟨hpre, hrest, nofun⟩
  · exact merged_split.mpr ⟨hpre, hpost, nofun⟩

/-- The block that is handed out. -/
def granted (n : Nat) (c : Cell Nat) : Cell Nat :=
  if n + 28 ≤ c.len then ⟨n + 8, some n⟩ else ⟨c.len, some n⟩

theorem owned_carve (pre post : List (Cell Nat)) (n : Nat) (hfit : n + 8 ≤ c.len) :
    owned 0 (pre ++ (carve n c ++ post)) =
      owned 0 pre ++ (extent pre, granted n c) :: owned (extent pre + c.len) post := by
  rw [owned_append, owned_append, Nat.zero_add, carve, granted]
  split
  · rw [owned_cons (not_free_mk _ _), owned_cons_free (free_mk _)]
    simp only [owned_nil, List.cons_append, List.nil_append, extent_cons, extent_nil, Nat.add_zero]
    rw [Nat.add_sub_cancel' (by omega)]
  · rw [owned_cons (not_free_mk _ _)]
    simp

theorem owned_cons_of_free (pre : List (Cell Nat)) (hfree : c.Free) :
    owned 0 (pre ++ c :: post) = owned 0 pre ++ owned (extent pre + c.len) post := by
  rw [owned_append, owned_cons_free hfree, Nat.zero_add]

/-- Any other gets the first block that is. -/
theorem Blocks.mem_malloc_some (hb : h.Blocks (pre ++ c :: post)) {size : Nat} (hzero : size ≠ 0)
    (hfirst : firstFit (blockSize size + 8) 0 (pre ++ c :: post) = some (extent pre))
    (hfree : c.Free) (hfit : blockSize size + 8 ≤ c.len) :
    ∃ h', h.mem_malloc size = some (h.ram + extent pre + 8, h') ∧ h'.ram = h.ram ∧
      h'.Blocks (pre ++ (carve (blockSize size) c ++ post)) ∧
      ∀ a, a < extent pre ∨ extent pre + c.len + 8 ≤ a → h'.bytes a = h.bytes a := by
  have hsize := blockSize_ge size
  have hbound := hb.bound
  have hpos : ∀ d ∈ pre, 0 < d.len := fun d hd => by
    have := (hb.sizes d (by simp [hd])).1
    omega
  have hlays := hb.take hsize hfit
  have hbytes := fun a => hb.bytes_take (n := blockSize size) (a := a) hfit
  have hram := ram_take h (extent pre) (blockSize size)
  have hlfree := lfree_take h (extent pre) (blockSize size)
  have hmerged := merged_carve hb.merged hfree (blockSize size)
  have hfits : ∀ x ∈ owned 0 (pre ++ (carve (blockSize size) c ++ post)), ∀ n ∈ x.2.owner,
      n + 8 ≤ x.2.len := by
    have hold := hb.fits
    rw [owned_cons_of_free pre hfree] at hold
    rw [owned_carve pre post _ hfit]
    simp only [List.forall_mem_append, List.forall_mem_cons] at hold ⊢
    refine ⟨hold.1, ?_, hold.2⟩
    rw [granted]
    split <;> simp [hfit]
  have hle := hb.lowest.le (extent pre, c) (by simp) hfree
  have hmalloc : h.mem_malloc size =
      if extent pre = h.lfree then
        ((h.take (extent pre) (blockSize size)).nextFree MEM_SIZE_ALIGNED
          (h.take (extent pre) (blockSize size)).lfree).map fun cur =>
            (h.ram + extent pre + 8, { h.take (extent pre) (blockSize size) with lfree := cur })
      else some (h.ram + extent pre + 8, h.take (extent pre) (blockSize size)) := by
    rw [MemHeap.mem_malloc, if_neg hzero]
    dsimp only
    rw [if_neg (by rw [MEM_SIZE_ALIGNED]; omega), hb.scan_eq, hfirst]
    rfl
  obtain ⟨k, hk⟩ : ∃ k, k = h.take (extent pre) (blockSize size) := ⟨_, rfl⟩
  rw [← hk] at hlays hram hlfree hmalloc
  simp only [← hk] at hbytes
  by_cases hlow : extent pre = h.lfree
  · have hlaid := hlays.laid
    rw [laid_append, Nat.zero_add] at hlaid
    have htotal := hlays.extent_eq
    rw [extent_append] at htotal
    have hlen := length_lt hlays
    rw [List.length_append] at hlen
    obtain ⟨l, hnext, hlowest⟩ := nextFree_eq hlaid.2
      (fun d hd => (hlays.sizes d (List.mem_append_right pre hd)).1) htotal
      (show _ < MEM_SIZE_ALIGNED by rw [MEM_SIZE_ALIGNED]; omega)
    have hpre : ∀ d ∈ pre, ¬ d.Free := by
      have hlowest' := hb.lowest
      rw [← hlow, ← Nat.zero_add (extent pre)] at hlowest'
      exact hlowest'.before hpos
    rw [if_pos hlow, hlfree, ← hlow, hnext, Option.map_some] at hmalloc
    exact ⟨_, hmalloc, hram, ⟨hlays.setLfree l, hmerged, hfits,
      .append pre hpre (by rwa [Nat.zero_add])⟩, hbytes⟩
  · rw [if_neg hlow] at hmalloc
    refine ⟨k, hmalloc, hram, ⟨hlays, hmerged, hfits, ?_⟩, hbytes⟩
    rw [hlfree]
    exact hb.lowest.of_lt (by dsimp only at hle; omega)

end MemHeap

end NetCamera.Lwip
