import NetCamera.Lwip.Blocks

/-!
# NetCamera.Lwip.Release

Memory given back: `mem_free` and `mem_trim`.

`mem_free` marks its block free and plugs the hole to both sides; `Plugged` is what each of the
three steps does to the blocks, and composes.  `mem_trim` cuts its block, and gives what is left
over to the free block behind it, if there is one.
-/

namespace NetCamera.Lwip

open Tiling

namespace MemHeap

variable {h k m : MemHeap} {pre post cs cs' cs'' : List (Cell Nat)} {c d : Cell Nat}

/-- The data of a block is left as it is. -/
def Same (h k : MemHeap) (x : Nat × Cell Nat) : Prop :=
  ∀ a, x.1 + 8 ≤ a → a < x.1 + x.2.len → k.bytes a = h.bytes a

theorem Same.trans {x : Nat × Cell Nat} (hhk : Same h k x) (hkm : Same k m x) : Same h m x :=
  fun a hle hlt => (hkm a hle hlt).trans (hhk a hle hlt)

/-- What is written into some cells and the header behind them is in no other block. -/
theorem same_around {n : Nat} (hbytes : ∀ a, a < extent pre ∨ extent pre + n + 8 ≤ a →
    k.bytes a = h.bytes a) {x : Nat × Cell Nat}
    (hx : x ∈ owned 0 pre ++ owned (extent pre + n) post) : Same h k x := by
  intro a hle hlt
  refine hbytes a ?_
  rcases List.mem_append.mp hx with hx | hx
  · have := (placed_bounds (mem_owned.mp hx).1).2
    omega
  · have := (placed_bounds (mem_owned.mp hx).1).1
    omega

/-- Free cells are joined. -/
structure Plugged (h k : MemHeap) (cs cs' : List (Cell Nat)) : Prop where
  lays : k.Lays cs'
  ram : k.ram = h.ram
  lfree : k.lfree = h.lfree
  owned_eq : owned 0 cs' = owned 0 cs
  lowest : Lowest 0 cs' k.lfree
  same : ∀ x ∈ owned 0 cs, Same h k x

theorem Plugged.refl (hl : h.Lays cs) (hlow : Lowest 0 cs h.lfree) : Plugged h h cs cs :=
  ⟨hl, rfl, rfl, rfl, hlow, fun _ _ _ _ _ => rfl⟩

theorem Plugged.trans (hhk : Plugged h k cs cs') (hkm : Plugged k m cs' cs'') :
    Plugged h m cs cs'' where
  lays := hkm.lays
  ram := hkm.ram.trans hhk.ram
  lfree := hkm.lfree.trans hhk.lfree
  owned_eq := hkm.owned_eq.trans hhk.owned_eq
  lowest := hkm.lowest
  same x hx := (hhk.same x hx).trans (hkm.same x (hhk.owned_eq ▸ hx))

/-- A free block takes the free block behind it in. -/
theorem Plugged.join (hl : h.Lays (pre ++ c :: d :: post))
    (hlow : Lowest 0 (pre ++ c :: d :: post) h.lfree) (hc : c.Free) (hd : d.Free) :
    Plugged h ((h.setNext (extent pre) (extent pre + (c.len + d.len))).setPrev
      (extent pre + (c.len + d.len)) (extent pre)) (pre ++ c :: d :: post)
      (pre ++ ⟨c.len + d.len, c.owner⟩ :: post) where
  lays := hl.join
  ram := rfl
  lfree := rfl
  owned_eq := by
    rw [owned_cons_of_free pre hc, owned_cons_free hd,
      owned_cons_of_free (c := ⟨c.len + d.len, c.owner⟩) pre hc]
    simp [Nat.add_assoc]
  lowest := hlow.join hc
  same x hx := by
    rw [owned_cons_of_free pre hc, owned_cons_free hd, Nat.add_assoc] at hx
    have hbound := hl.bound
    refine same_around (fun a ha => ?_) hx
    rw [bytes_setPrev _ _ _ (by omega), bytes_setNext _ _ _ (by omega)]

theorem plugForward_spec (hl : h.Lays (pre ++ c :: post))
    (hlow : Lowest 0 (pre ++ c :: post) h.lfree) (hc : c.Free) (hmerged : Merged post) :
    ∃ c' post', Plugged h (h.plugForward (extent pre)) (pre ++ c :: post) (pre ++ c' :: post') ∧
      c'.Free ∧ Merged post' ∧ ∀ d ∈ post'.head?, ¬ d.Free := by
  have hbound := hl.bound
  rw [plugForward]
  dsimp only
  rw [hl.next_eq]
  cases post with
  | nil =>
      rw [extent_nil] at hbound
      rw [if_neg (by rw [MEM_SIZE_ALIGNED]; omega)]
      exact ⟨c, [], .refl hl hlow, hc, hmerged, by simp⟩
  | cons d post =>
      have hl' : h.Lays ((pre ++ [c]) ++ d :: post) := by simpa using hl
      have hd := hl'.bound
      have hused := hl'.used_eq_zero_iff
      have hnext := hl'.next_eq
      simp only [extent_append, extent_cons, extent_nil, Nat.add_zero] at hd hused hnext
      by_cases hfree : d.Free
      · have hle := hlow.le (extent pre, c) (by simp) hc
        dsimp only at hle
        rw [if_pos ⟨by omega, hused.mpr hfree, by rw [MEM_SIZE_ALIGNED]; omega⟩,
          if_neg (by omega), hnext, next_setNext_of_apart (by omega), hnext, Nat.add_assoc]
        obtain ⟨hpost, hnear⟩ := merged_cons.mp hmerged
        exact ⟨_, post, .join hl hlow hc hfree, hc, hpost, hnear hfree⟩
      · rw [if_neg fun hcond => hfree (hused.mp hcond.2.1)]
        exact ⟨c, d :: post, .refl hl hlow, hc, hmerged, by simpa using hfree⟩

theorem plugBackward_spec (hl : h.Lays (pre ++ c :: post))
    (hlow : Lowest 0 (pre ++ c :: post) h.lfree) (hc : c.Free) (hmerged : Merged pre)
    (hpost : Merged post) (hbehind : ∀ d ∈ post.head?, ¬ d.Free) :
    ∃ cs', Plugged h (h.plugBackward (extent pre)) (pre ++ c :: post) cs' ∧ Merged cs' := by
  have hbound := hl.bound
  rw [plugBackward]
  dsimp only
  rw [hl.prev_eq]
  rcases List.eq_nil_or_concat pre with rfl | ⟨pre, b, rfl⟩
  · rw [if_neg fun hcond => hcond.1 rfl]
    exact ⟨_, .refl hl hlow, merged_split.mpr ⟨hmerged, hpost, fun _ => ⟨by simp, hbehind⟩⟩⟩
  · rw [List.concat_eq_append] at *
    have hl' : h.Lays (pre ++ b :: c :: post) := by simpa using hl
    have hlow' : Lowest 0 (pre ++ b :: c :: post) h.lfree := by simpa using hlow
    have hb := hl'.bound
    have hused := hl'.used_eq_zero_iff
    have hnext := hl.next_eq
    have hlist : pre ++ [b] ++ c :: post = pre ++ b :: c :: post := by simp
    rw [lastAt_append, Nat.zero_add, hlist]
    simp only [extent_append, extent_cons, extent_nil, Nat.add_zero] at hb hnext ⊢
    obtain ⟨hpre, -, hnear⟩ := merged_split.mp hmerged
    by_cases hfree : b.Free
    · have hle := hlow'.le (extent pre, b) (by simp) hfree
      dsimp only at hle
      rw [if_pos ⟨by omega, hused.mpr hfree⟩, if_neg (by omega), hnext,
        next_setNext_of_apart (by omega), hnext, Nat.add_assoc]
      exact ⟨_, .join hl' hlow' hfree hc,
        merged_split.mpr ⟨hpre, hpost, fun _ => ⟨(hnear hfree).1, hbehind⟩⟩⟩
    · rw [if_neg fun hcond => hfree (hused.mp hcond.2)]
      refine ⟨_, .refl hl' hlow', ?_⟩
      rw [← hlist]
      exact merged_split.mpr ⟨hmerged, hpost, fun _ => ⟨by simpa using hfree, hbehind⟩⟩

/-- The block is free, and `lfree` is the lowest free block again. -/
theorem Blocks.unmark (hb : h.Blocks (pre ++ c :: post)) :
    ∃ k, k = (if extent pre < (h.setUsed (extent pre) 0).lfree then
        { h.setUsed (extent pre) 0 with lfree := extent pre } else h.setUsed (extent pre) 0) ∧
      k.Lays (pre ++ ⟨c.len, none⟩ :: post) ∧ k.ram = h.ram ∧
      Lowest 0 (pre ++ ⟨c.len, none⟩ :: post) k.lfree ∧
      ∀ a, a < extent pre ∨ extent pre + 8 ≤ a → k.bytes a = h.bytes a := by
  have hlays := hb.mark 0 (o := none) rfl
  have hlow := hb.lowest.release
  have hbytes := fun a (ha : a < extent pre ∨ extent pre + 8 ≤ a) =>
    bytes_setUsed h (extent pre) 0 ha
  rw [Nat.zero_add] at hlow
  refine ⟨_, rfl, ?_⟩
  rw [lfree_setUsed]
  split
  · next hlt =>
      rw [Nat.min_eq_right (Nat.le_of_lt hlt)] at hlow
      exact ⟨hlays.setLfree _, rfl, hlow, hbytes⟩
  · next hge =>
      rw [Nat.min_eq_left (Nat.le_of_not_lt hge)] at hlow
      exact ⟨hlays, rfl, hlow, hbytes⟩

/-- **`mem_free`** takes its block out of the blocks in use and leaves the others. -/
theorem Blocks.mem_free (hb : h.Blocks (pre ++ c :: post)) :
    ∃ cs', (h.mem_free (h.ram + extent pre + 8)).Blocks cs' ∧
      (h.mem_free (h.ram + extent pre + 8)).ram = h.ram ∧
      owned 0 cs' = owned 0 pre ++ owned (extent pre + c.len) post ∧
      ∀ x ∈ owned 0 cs', Same h (h.mem_free (h.ram + extent pre + 8)) x := by
  have hbound := hb.bound
  obtain ⟨hmpre, hmpost, -⟩ := merged_split.mp hb.merged
  obtain ⟨k, hk, hlays, hram, hlow, hbytes⟩ := hb.unmark
  have hmem : h.mem_free (h.ram + extent pre + 8) = k.plug_holes (extent pre) := by
    have hsub : h.ram + extent pre + 8 - SIZEOF_STRUCT_MEM - h.ram = extent pre := by
      rw [SIZEOF_STRUCT_MEM]
      omega
    rw [MemHeap.mem_free, if_neg (by omega),
      if_neg (by simp only [Illegal, MEM_SIZE_ALIGNED, not_or]; omega), hsub, hk]
  obtain ⟨c', post', hforward, hc', hmpost', hbehind⟩ := plugForward_spec hlays hlow rfl hmpost
  obtain ⟨cs', hbackward, hmerged⟩ := plugBackward_spec hforward.lays hforward.lowest hc' hmpre
    hmpost' hbehind
  have hplug := hforward.trans hbackward
  have howned : owned 0 cs' = owned 0 pre ++ owned (extent pre + c.len) post := by
    rw [hplug.owned_eq, owned_cons_of_free pre (free_mk c.len)]
  rw [hmem, plug_holes]
  refine ⟨cs', ⟨hplug.lays, hmerged, fun x hx => ?_, hplug.lowest⟩, hplug.ram.trans hram, howned,
    fun x hx => ?_⟩
  · rw [howned, List.mem_append] at hx
    refine hb.fits x (mem_owned.mpr ?_)
    rcases hx with hx | hx
    · exact ⟨by simp [(mem_owned.mp hx).1], (mem_owned.mp hx).2⟩
    · exact ⟨by simp [(mem_owned.mp hx).1], (mem_owned.mp hx).2⟩
  · have hsame := hplug.same x (hplug.owned_eq ▸ hx)
    rw [howned] at hx
    exact (same_around (fun a ha => hbytes a (by omega)) hx).trans hsame

/-! ## `mem_trim` -/

theorem Lays.pos (hl : h.Lays cs) : ∀ c ∈ cs, 0 < c.len := fun c hc => by
  have := (hl.sizes c hc).1
  omega

/-- The header of a used block says so whoever owns it. -/
theorem Lays.own (hl : h.Lays (pre ++ c :: post)) (hc : ¬ c.Free) (n : Nat) :
    h.Lays (pre ++ ⟨c.len, some n⟩ :: post) := by
  have hused : h.used (extent pre) ≠ 0 := fun hzero => hc (hl.used_eq_zero_iff.mp hzero)
  have hmark := hl.mark (h.used (extent pre)) (o := some n) (by simp [hused])
  rwa [setUsed_self] at hmark

/-- A used block is cut, with the free block behind it or without. -/
theorem Lays.trim (mid : List (Cell Nat)) (hl : h.Lays (pre ++ (c :: mid ++ post))) (hc : ¬ c.Free)
    {n : Nat} (a : Nat) (hn : 20 ≤ n ∧ n % 4 = 0) (hrest : n + 20 ≤ extent (c :: mid)) :
    ((h.cut (extent pre) (extent pre + n) (extent pre + extent (c :: mid))).linkBack
      (extent pre + n)).Lays (pre ++ (⟨n, some a⟩ :: ⟨extent (c :: mid) - n, none⟩ :: post)) := by
  have hl' : h.Lays (pre ++ c :: (mid ++ post)) := hl
  have htotal := hl.extent_eq
  rw [extent_append, extent_append] at htotal
  generalize hk : h.cut (extent pre) (extent pre + n) (extent pre + extent (c :: mid)) = k
  have hused : k.used (extent pre) ≠ 0 := by
    rw [Ne, MemHeap.used_eq_zero_iff, ← hk, hdr_cut_left (by omega) (by omega)]
    dsimp only
    rw [← MemHeap.used_eq_zero_iff]
    exact fun hzero => hc (hl'.used_eq_zero_iff.mp hzero)
  have hcut := Lays.cut mid hl (o := some a) (b := k.used (extent pre)) (by simp [hused]) hn hrest
  rwa [hk, setUsed_self] at hcut

theorem merged_cut {n k : Nat} (a : Nat) (hpre : Merged pre) (hpost : Merged post)
    (hbehind : ∀ d ∈ post.head?, ¬ d.Free) :
    Merged (pre ++ ⟨n, some a⟩ :: (⟨k, none⟩ : Cell Nat) :: post) :=
  merged_split.mpr ⟨hpre, merged_cons.mpr ⟨hpost, fun _ => hbehind⟩, nofun⟩

/-- A block is trimmed to `n` bytes. -/
structure Trimmed (h k : MemHeap) (pre : List (Cell Nat)) (c : Cell Nat) (post : List (Cell Nat))
    (n : Nat) (c' : Cell Nat) (cs' : List (Cell Nat)) : Prop where
  blocks : k.Blocks cs'
  ram : k.ram = h.ram
  owner : c'.owner = some n
  owned_eq : owned 0 cs' = owned 0 pre ++ (extent pre, c') :: owned (extent pre + c.len) post
  same : ∀ x ∈ owned 0 pre ++ owned (extent pre + c.len) post, Same h k x
  kept : ∀ a, extent pre + 8 ≤ a → a < extent pre + 8 + n → k.bytes a = h.bytes a

theorem owned_cons_of_not_free (pre : List (Cell Nat)) (hc : ¬ c.Free) :
    owned 0 (pre ++ c :: post) =
      owned 0 pre ++ (extent pre, c) :: owned (extent pre + c.len) post := by
  rw [owned_append, owned_cons hc, Nat.zero_add]

/-- The other blocks are long enough because they were. -/
theorem Blocks.fits_trim (hb : h.Blocks (pre ++ c :: post)) (hc : ¬ c.Free) {n : Nat}
    (c' : Cell Nat) (hn : c'.owner = some n) (hfit : n + 8 ≤ c'.len)
    (howned : owned 0 cs' = owned 0 pre ++ (extent pre, c') :: owned (extent pre + c.len) post) :
    ∀ x ∈ owned 0 cs', ∀ n ∈ x.2.owner, n + 8 ≤ x.2.len := by
  have hold := hb.fits
  rw [owned_cons_of_not_free pre hc] at hold
  rw [howned]
  simp only [List.forall_mem_append, List.forall_mem_cons] at hold ⊢
  exact ⟨hold.1, by simp [hn, hfit], hold.2.2⟩

/-- The block keeps its size. -/
theorem Trimmed.keep (hb : h.Blocks (pre ++ c :: post)) (hc : ¬ c.Free) {n : Nat}
    (hfit : n + 8 ≤ c.len) :
    Trimmed h h pre c post n ⟨c.len, some n⟩ (pre ++ ⟨c.len, some n⟩ :: post) := by
  obtain ⟨hpre, hpost, -⟩ := merged_split.mp hb.merged
  have howned : owned 0 (pre ++ ⟨c.len, some n⟩ :: post) =
      owned 0 pre ++ (extent pre, ⟨c.len, some n⟩) :: owned (extent pre + c.len) post :=
    owned_cons_of_not_free pre (not_free_mk _ _)
  exact ⟨⟨hb.own hc n, merged_split.mpr ⟨hpre, hpost, nofun⟩,
    hb.fits_trim hc ⟨c.len, some n⟩ rfl hfit howned, hb.lowest.own hc n⟩,
    rfl, rfl, howned, fun _ _ _ _ _ => rfl, fun _ _ _ => rfl⟩

/-- The block is cut, and what is left over is free, with the free block behind it if there
is one. -/
theorem Trimmed.cut (mid : List (Cell Nat)) (hb : h.Blocks (pre ++ (c :: mid ++ post)))
    (hc : ¬ c.Free) (hmid : ∀ d ∈ mid, d.Free) {n l : Nat} (hn : 12 ≤ n ∧ n % 4 = 0)
    (hfit : n + 8 ≤ c.len) (hrest : n + 28 ≤ extent (c :: mid))
    (hbehind : ∀ d ∈ post.head?, ¬ d.Free) (hl : l = min h.lfree (extent pre + (n + 8))) :
    Trimmed h ((MemHeap.cut { h with lfree := l } (extent pre) (extent pre + (n + 8))
      (extent pre + extent (c :: mid))).linkBack (extent pre + (n + 8))) pre c (mid ++ post) n
      ⟨n + 8, some n⟩
      (pre ++ (⟨n + 8, some n⟩ :: ⟨extent (c :: mid) - (n + 8), none⟩ :: post)) := by
  have hb' : h.Blocks (pre ++ c :: (mid ++ post)) := hb
  obtain ⟨hpre, hmerged, -⟩ := merged_split.mp hb'.merged
  have hpost : Merged post := (List.isChain_append.mp hmerged).2.1
  have htotal := hb.extent_eq
  have hlays := (hb.toLays.setLfree l).trim mid hc (n := n + 8) n (by omega) (by omega)
  rw [extent_append, extent_append] at htotal
  have howned : owned (extent pre + c.len) (mid ++ post) =
      owned (extent pre + extent (c :: mid)) post := by
    rw [owned_append, owned_eq_nil hmid, List.nil_append, extent_cons, Nat.add_assoc]
  have howned' : owned 0 (pre ++ (⟨n + 8, some n⟩ :: ⟨extent (c :: mid) - (n + 8), none⟩ :: post)) =
      owned 0 pre ++ (extent pre, ⟨n + 8, some n⟩) :: owned (extent pre + c.len) (mid ++ post) := by
    rw [owned_cons_of_not_free pre (not_free_mk _ _), owned_cons_free (free_mk _), howned,
      Nat.add_assoc]
    dsimp only
    rw [Nat.add_sub_cancel' (by omega)]
  have hbytes : ∀ a, (a < extent pre ∨ extent pre + 8 ≤ a) →
      (a < extent pre + (n + 8) ∨ extent pre + extent (c :: mid) + 8 ≤ a) →
      ((MemHeap.cut { h with lfree := l } (extent pre) (extent pre + (n + 8))
        (extent pre + extent (c :: mid))).linkBack (extent pre + (n + 8))).bytes a = h.bytes a := by
    intro a ha ha'
    have hnext : (MemHeap.cut { h with lfree := l } (extent pre) (extent pre + (n + 8))
        (extent pre + extent (c :: mid))).next (extent pre + (n + 8)) =
          extent pre + extent (c :: mid) := by
      rw [next_eq_hdr, hdr_cut_right (by omega) (by omega) (by omega)]
    rw [bytes_linkBack (by rw [hnext]; omega), bytes_cut ha (by omega)]
  refine ⟨⟨hlays, merged_cut n hpre hpost hbehind, ?_, ?_⟩, ram_linkBack _ _, rfl, howned',
    fun x hx => ?_, fun a ha ha' => hbytes a (.inr ha) (.inl (by omega))⟩
  · exact hb'.fits_trim hc ⟨n + 8, some n⟩ rfl (Nat.le_refl _) howned'
  · rw [lfree_linkBack]
    have hmin : l = min h.lfree (0 + extent pre + (n + 8)) := by rw [Nat.zero_add, hl]
    rw [lfree_cut]
    dsimp only
    rw [hmin]
    refine hb'.lowest.cut n (fun d hd => hb.pos d (by simp [hd]))
      (by simp only [extent_cons]; omega) (fun x hx hfree => ?_) fun x hx _ => ?_
    · rw [placed_cons, List.mem_cons] at hx
      rcases hx with rfl | hx
      · exact absurd hfree hc
      · have := (placed_bounds hx).1
        omega
    · rw [Nat.add_assoc, Nat.add_sub_cancel' (by omega)] at hx
      simp only [placed_cons, placed_append, List.mem_cons, List.mem_append]
      rw [extent_cons, ← Nat.add_assoc] at hx
      exact .inr (.inr hx)
  · rw [howned] at hx
    exact same_around (fun a ha => hbytes a (by omega) (by omega)) hx

/-- What `mem_trim` reads of its block. -/
theorem Lays.trim_size (hl : h.Lays (pre ++ c :: post)) :
    ¬ h.Illegal (h.ram + extent pre + 8) ∧
      memSize (h.ram + extent pre + 8 - SIZEOF_STRUCT_MEM - h.ram) = extent pre ∧
      memSize (sub32 (sub32 (h.next (extent pre)) (extent pre)) SIZEOF_STRUCT_MEM) = c.len - 8 := by
  have hbound := hl.bound
  rw [hl.next_eq]
  simp only [Illegal, MEM_SIZE_ALIGNED, SIZEOF_STRUCT_MEM, memSize, sub32]
  omega

/-- A block is not made larger. -/
theorem Lays.mem_trim_none (hl : h.Lays (pre ++ c :: post)) {newsize : Nat}
    (hlong : c.len < blockSize newsize + 8) :
    h.mem_trim (h.ram + extent pre + 8) newsize = (0, h) := by
  have hbound := hl.bound
  obtain ⟨hlegal, hptr, hsize⟩ := hl.trim_size
  rw [MemHeap.mem_trim]
  dsimp only
  by_cases hbig : MEM_SIZE_ALIGNED < blockSize newsize
  · rw [if_pos hbig]
  · rw [if_neg hbig, if_neg hlegal, hptr, hsize, if_pos (by omega)]

/-- The header behind a block, where a free block starts there. -/
theorem Lays.behind (hl : h.Lays (pre ++ c :: d :: post)) :
    (h.used (extent pre + c.len) = 0 ↔ d.Free) ∧
      h.next (extent pre + c.len) = extent pre + c.len + d.len := by
  have hl' : h.Lays ((pre ++ [c]) ++ d :: post) := by simpa using hl
  have hused := hl'.used_eq_zero_iff
  have hnext := hl'.next_eq
  simp only [extent_append, extent_cons, extent_nil, Nat.add_zero] at hused hnext
  exact ⟨hused, hnext⟩

/-- The header behind a block is a used one where no free block starts there. -/
theorem Lays.used_behind (hl : h.Lays (pre ++ c :: post)) (hbehind : ∀ d ∈ post.head?, ¬ d.Free) :
    h.used (extent pre + c.len) ≠ 0 := by
  cases post with
  | nil =>
      have hbound := hl.bound
      have hstop := hl.stop
      rw [extent_nil] at hbound
      rw [Ne, MemHeap.used_eq_zero_iff, show extent pre + c.len = 16000 by omega, hstop]
      simp
  | cons d post => exact fun hzero => hbehind d rfl (hl.behind.1.mp hzero)

/-- **`mem_trim`** makes its block smaller and leaves the others. -/
theorem Blocks.mem_trim_some (hb : h.Blocks (pre ++ c :: post)) (hc : ¬ c.Free) {newsize : Nat}
    (hfit : blockSize newsize + 8 ≤ c.len) :
    ∃ k c' cs', h.mem_trim (h.ram + extent pre + 8) newsize = (h.ram + extent pre + 8, k) ∧
      Trimmed h k pre c post (blockSize newsize) c' cs' := by
  have hbound := hb.bound
  have hn := blockSize_ge newsize
  obtain ⟨hlegal, hptr, hsize⟩ := hb.trim_size
  obtain ⟨-, hmerged, -⟩ := merged_split.mp hb.merged
  rw [MemHeap.mem_trim]
  dsimp only
  generalize blockSize newsize = n at *
  rw [if_neg (by rw [MEM_SIZE_ALIGNED]; omega), if_neg hlegal, hptr, hsize, if_neg (by omega)]
  have hptr2 : memSize (extent pre + SIZEOF_STRUCT_MEM + n) = extent pre + (n + 8) := by
    rw [memSize, SIZEOF_STRUCT_MEM]
    omega
  by_cases hsame : n = c.len - 8
  · rw [if_pos hsame]
    exact ⟨h, _, _, rfl, .keep hb hc hfit⟩
  · rw [if_neg hsame, hptr2, hb.next_eq, SIZEOF_STRUCT_MEM, MIN_SIZE_ALIGNED]
    by_cases hfree : ∃ d post', post = d :: post' ∧ d.Free
    · obtain ⟨d, post, rfl, hd⟩ := hfree
      obtain ⟨hused, hnext⟩ := hb.behind
      obtain ⟨hpost, hnear⟩ := merged_cons.mp hmerged
      have hle := hb.lowest.le (extent pre + c.len, d) (by simp) hd
      have hout := hb.lowest.outside (x := (extent pre, c)) (by simp)
      have hd' : h.Lays ((pre ++ [c]) ++ d :: post) := by simpa using hb.toLays
      have hdlen := hd'.bound.2
      have hlfree : (if h.lfree = extent pre + c.len then
          { h with lfree := extent pre + (n + 8) } else h) =
            { h with lfree := min h.lfree (extent pre + (n + 8)) } := by
        dsimp only at hle hout
        split
        · rw [Nat.min_eq_right (by omega)]
        · rw [Nat.min_eq_left (by omega)]
      have htail : extent pre + c.len + d.len = extent pre + extent [c, d] := by
        simp [Nat.add_assoc]
      rw [if_pos (hused.mpr hd), hnext, hlfree, htail]
      exact ⟨_, _, _, rfl, .cut [d] hb hc (by simpa using hd) hn hfit
        (by simp only [extent_cons, extent_nil]; omega) (hnear hd) rfl⟩
    · have hbehind : ∀ d ∈ post.head?, ¬ d.Free := by
        intro d hd hdfree
        obtain ⟨post', rfl⟩ := List.head?_eq_some_iff.mp hd
        exact hfree ⟨d, post', rfl, hdfree⟩
      rw [if_neg (hb.used_behind hbehind)]
      split
      · have hlfree : (if extent pre + (n + 8) < h.lfree then
            { h with lfree := extent pre + (n + 8) } else h) =
              { h with lfree := min h.lfree (extent pre + (n + 8)) } := by
          split
          · rw [Nat.min_eq_right (by omega)]
          · rw [Nat.min_eq_left (by omega)]
        have htail : extent pre + c.len = extent pre + extent [c] := by simp
        rw [hlfree, (hb.setLfree _).next_eq, htail]
        exact ⟨_, _, _, rfl, .cut [] hb hc (by simp) hn hfit
          (by simp only [extent_cons, extent_nil]; omega) hbehind rfl⟩
      · exact ⟨h, _, _, rfl, .keep hb hc hfit⟩

end MemHeap

end NetCamera.Lwip
