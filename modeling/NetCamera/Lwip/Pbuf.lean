import NetCamera.Lib.Links
import NetCamera.Lib.Run
import NetCamera.Lwip.Mem

/-!
# NetCamera.Lwip.Pbuf

The packet buffers of lwIP (`pbuf.c`): chains of `struct pbuf` that may share their tails, with a
count in each of how many pointers refer to it.

A function that reads or writes a pbuf that is not allocated answers `none`; so does a loop that
goes on for more pbufs than there are.  `Counted` says that the counts are right, for given
pointers from outside.  Each call keeps it, and neither answers `none` then.
-/

namespace NetCamera.Lwip

open Run Links

def PBUF_POOL_BUFSIZE_ALIGNED : Nat := LWIP_MEM_ALIGN_SIZE 512

inductive PbufLayer where
  | PBUF_TRANSPORT | PBUF_IP | PBUF_LINK | PBUF_RAW
  deriving DecidableEq, Repr

def PbufLayer.offset : PbufLayer → Nat
  | .PBUF_TRANSPORT => 14 + 20 + 20
  | .PBUF_IP => 14 + 20
  | .PBUF_LINK => 14
  | .PBUF_RAW => 0

inductive PbufType where
  | PBUF_RAM | PBUF_ROM | PBUF_REF | PBUF_POOL
  deriving DecidableEq, Repr

/-- `struct pbuf`, less what the functions below do not read. -/
structure Pbuf where
  next : Option Nat
  tot_len : Nat
  len : Nat
  ref : Nat
  deriving DecidableEq, Repr

/-- The pbufs that are allocated, and what their memory holds. -/
structure Pbufs where
  live : List Nat
  pbuf : Nat → Pbuf

namespace Pbufs

def next (s : Pbufs) (p : Nat) : Option Nat := (s.pbuf p).next

def alloc (s : Pbufs) (p : Nat) (b : Pbuf) : Pbufs := ⟨p :: s.live, Function.update s.pbuf p b⟩

/-- `memp_free` or `mem_free`, whichever the pbuf is from. -/
def dealloc (s : Pbufs) (p : Nat) : Pbufs := ⟨s.live.erase p, s.pbuf⟩

def read (s : Pbufs) (p : Nat) : Option Pbuf := if p ∈ s.live then some (s.pbuf p) else none

def set (s : Pbufs) (p : Nat) (b : Pbuf) : Pbufs := ⟨s.live, Function.update s.pbuf p b⟩

def modify (s : Pbufs) (p : Nat) (f : Pbuf → Pbuf) : Option Pbufs :=
  if p ∈ s.live then some (s.set p (f (s.pbuf p))) else none

/-- The `while` of `pbuf_free`: the pbufs left, and how many were freed, in a `u8_t`. -/
def freeLoop : Nat → Option Nat → Pbufs → Nat → Option (Pbufs × Nat)
  | _, none, s, count => some (s, count)
  | 0, some _, _, _ => none
  | fuel + 1, some p, s, count =>
      (s.modify p fun b => { b with ref := (b.ref + 65535) % 65536 }).bind fun s =>
        if (s.pbuf p).ref = 0 then
          freeLoop fuel (s.pbuf p).next (s.dealloc p) ((count + 1) % 256)
        else some (s, count)

def pbuf_free (s : Pbufs) (p : Nat) : Option (Pbufs × Nat) := freeLoop s.live.length (some p) s 0

/-- The `while` of `pbuf_alloc` for `PBUF_POOL`, behind `r`; `ms` is what `memp_malloc` answers
until there is no more. -/
def tailLoop (p : Nat) : List Nat → Nat → Nat → Pbufs → Option (Pbufs × Option Nat)
  | [], _, rem_len, s =>
      if 0 < rem_len then (s.pbuf_free p).map fun (s, _) => (s, none) else some (s, some p)
  | q :: ms, r, rem_len, s =>
      if 0 < rem_len then
        let s := s.alloc q ⟨none, rem_len, min rem_len PBUF_POOL_BUFSIZE_ALIGNED, 1⟩
        (s.modify r fun b => { b with next := some q }).bind
          (tailLoop p ms q (rem_len - min rem_len PBUF_POOL_BUFSIZE_ALIGNED))
      else some (s, some p)

/-- The pbufs behind the call, and the first of the new ones, or NULL. -/
def pbuf_alloc (s : Pbufs) (layer : PbufLayer) (length : Nat) (type : PbufType) (ms : List Nat) :
    Option (Pbufs × Option Nat) :=
  match ms, type with
  | [], _ => some (s, none)
  | p :: ms, .PBUF_POOL =>
      let len := min length (PBUF_POOL_BUFSIZE_ALIGNED - LWIP_MEM_ALIGN_SIZE layer.offset)
      tailLoop p ms p (length - len) (s.alloc p ⟨none, length, len, 1⟩)
  | p :: _, _ => some (s.alloc p ⟨none, length, length, 1⟩, some p)

def pbuf_ref (s : Pbufs) (p : Nat) : Option Pbufs :=
  s.modify p fun b => { b with ref := (b.ref + 1) % 65536 }

/-- The `for` of `pbuf_cat` and what follows it. -/
def catLoop (t : Nat) : Nat → Nat → Pbufs → Option Pbufs
  | 0, _, _ => none
  | fuel + 1, p, s =>
      (s.read t).bind fun tail =>
        (s.modify p fun b => { b with tot_len := (b.tot_len + tail.tot_len) % 65536 }).bind fun s =>
          match (s.pbuf p).next with
          | none => s.modify p fun b => { b with next := some t }
          | some q => catLoop t fuel q s

def pbuf_cat (s : Pbufs) (h t : Nat) : Option Pbufs := catLoop t s.live.length h s

def pbuf_chain (s : Pbufs) (h t : Nat) : Option Pbufs := (s.pbuf_cat h t).bind (·.pbuf_ref t)

/-- The pbufs behind the call, and the rest of the chain, or NULL. -/
def pbuf_dechain (s : Pbufs) (p : Nat) : Option (Pbufs × Option Nat) :=
  (s.read p).bind fun b =>
    match b.next with
    | none => some (s, none)
    | some q =>
        let tot_len := (b.tot_len + 65536 - b.len) % 65536
        (s.modify q fun c => { c with tot_len := tot_len }).bind fun s =>
          (s.modify p fun b => { b with next := none, tot_len := b.len }).bind fun s =>
            (s.pbuf_free q).map fun (s, tail_gone) =>
              (s, if 0 < tail_gone then none else some q)

/-! ## The counts -/

variable {s s' : Pbufs} {held : List Nat} {p q h t : Nat}

/-- What is allocated is what `held` and the pbufs themselves refer to, as often as the counts
say. -/
structure Counted (s : Pbufs) (held : List Nat) : Prop where
  nodup : s.live.Nodup
  closed : Closed s.live s.next
  acyclic : Acyclic s.live s.next
  alive : ∀ p ∈ held, p ∈ s.live
  ref : ∀ p ∈ s.live, (s.pbuf p).ref = held.count p + inLinks s.live s.next p
  pos : ∀ p ∈ s.live, 0 < (s.pbuf p).ref
  lt : ∀ p ∈ s.live, (s.pbuf p).ref < 65536

/-- A write to an allocated pbuf goes through. -/
theorem modify_of_mem (hp : p ∈ s.live) (f : Pbuf → Pbuf) :
    s.modify p f = some (s.set p (f (s.pbuf p))) := if_pos hp

/-- So does a read. -/
theorem read_of_mem (hp : p ∈ s.live) : s.read p = some (s.pbuf p) := if_pos hp

@[simp] theorem live_set (b : Pbuf) : (s.set p b).live = s.live := rfl

@[simp] theorem pbuf_set_self (b : Pbuf) : (s.set p b).pbuf p = b := Function.update_self ..

/-- A write changes one pbuf. -/
theorem pbuf_set_of_ne (hne : q ≠ p) (b : Pbuf) : (s.set p b).pbuf q = s.pbuf q :=
  Function.update_of_ne hne ..

/-- It changes one link. -/
theorem next_set (b : Pbuf) : (s.set p b).next = Function.update s.next p b.next := by
  funext x
  rcases eq_or_ne x p with rfl | hne
  · rw [next, pbuf_set_self, Function.update_self]
  · rw [next, pbuf_set_of_ne hne, Function.update_of_ne hne, next]

/-- A new pbuf brings its own link. -/
theorem next_alloc (b : Pbuf) : (s.alloc p b).next = Function.update s.next p b.next := next_set b

theorem pbuf_alloc_self (b : Pbuf) : (s.alloc p b).pbuf p = b := pbuf_set_self b

theorem pbuf_alloc_of_ne (hne : q ≠ p) (b : Pbuf) : (s.alloc p b).pbuf q = s.pbuf q :=
  pbuf_set_of_ne hne b

/-- Writing back the link that is there changes none. -/
theorem next_set_of_eq {b : Pbuf} (hb : b.next = s.next p) : (s.set p b).next = s.next := by
  rw [next_set, hb, Function.update_eq_self]

/-- Writing back the count that is there changes none. -/
theorem ref_set_of_eq {b : Pbuf} (hb : b.ref = (s.pbuf p).ref) (x : Nat) :
    ((s.set p b).pbuf x).ref = (s.pbuf x).ref := by
  rcases eq_or_ne x p with rfl | hne
  · rw [pbuf_set_self, hb]
  · rw [pbuf_set_of_ne hne]

/-- Links and counts are all that matters. -/
theorem Counted.congr {held' : List Nat} (hc : s.Counted held) (hlive : s'.live = s.live)
    (hnext : s'.next = s.next) (href : ∀ p, (s'.pbuf p).ref = (s.pbuf p).ref)
    (hheld : held'.Perm held) : s'.Counted held' where
  nodup := hlive ▸ hc.nodup
  closed := by rw [hlive, hnext]; exact hc.closed
  acyclic := by rw [hlive, hnext]; exact hc.acyclic
  alive p hp := hlive ▸ hc.alive p (hheld.mem_iff.mp hp)
  ref p hp := by rw [href, hheld.count_eq, hlive, hnext]; exact hc.ref p (hlive ▸ hp)
  pos p hp := by rw [href]; exact hc.pos p (hlive ▸ hp)
  lt p hp := by rw [href]; exact hc.lt p (hlive ▸ hp)

/-- A count and a pointer more, or less. -/
theorem Counted.setRef {held' : List Nat} {n : Nat} (hc : s.Counted held) (hp : p ∈ s.live)
    (hn : n = held'.count p + inLinks s.live s.next p) (hpos : 0 < n) (hlt : n < 65536)
    (hheld : ∀ x ∈ held', x ∈ s.live) (hother : ∀ x ≠ p, held'.count x = held.count x) :
    (s.set p { s.pbuf p with ref := n }).Counted held' := by
  have hnext : (s.set p { s.pbuf p with ref := n }).next = s.next := next_set_of_eq rfl
  refine ⟨hc.nodup, ?_, ?_, hheld, fun x hx => ?_, fun x hx => ?_, fun x hx => ?_⟩
  · rw [live_set, hnext]
    exact hc.closed
  · rw [live_set, hnext]
    exact hc.acyclic
  · rw [live_set, hnext]
    rcases eq_or_ne x p with rfl | hne
    · rw [pbuf_set_self]
      exact hn
    · rw [pbuf_set_of_ne hne, hother x hne]
      exact hc.ref x hx
  · rcases eq_or_ne x p with rfl | hne
    · rw [pbuf_set_self]
      exact hpos
    · rw [pbuf_set_of_ne hne]
      exact hc.pos x hx
  · rcases eq_or_ne x p with rfl | hne
    · rw [pbuf_set_self]
      exact hlt
    · rw [pbuf_set_of_ne hne]
      exact hc.lt x hx

/-- How often a possible pointer stands for `x`. -/
theorem count_toList (r : Option Nat) (x : Nat) :
    r.toList.count x = if r = some x then 1 else 0 := by
  cases r with
  | none => rfl
  | some q => simp [List.count_singleton]

/-- The last pointer goes, and the pbuf with it; what it pointed to is now referred to from
outside. -/
theorem Counted.dealloc {b : Pbuf} (hc : s.Counted (p :: held)) (hone : (s.pbuf p).ref = 1)
    (hb : b.next = s.next p) : ((s.set p b).dealloc p).Counted (b.next.toList ++ held) := by
  have hp : p ∈ s.live := hc.alive p List.mem_cons_self
  have hnext : ((s.set p b).dealloc p).next = s.next := next_set_of_eq hb
  have hlive : ((s.set p b).dealloc p).live = s.live.erase p := rfl
  have hpbuf : ∀ x ∈ s.live.erase p, ((s.set p b).dealloc p).pbuf x = s.pbuf x := fun x hx =>
    pbuf_set_of_ne (ne_of_mem_of_not_mem hx hc.nodup.not_mem_erase) b
  have href := hc.ref p hp
  rw [hone, List.count_cons_self] at href
  have hnone : inLinks s.live s.next p = 0 := by omega
  have hcount : held.count p = 0 := by omega
  have hkept : ∀ x ∈ s.live, ∀ y ∈ s.next x, y ∈ s.live.erase p := fun x hx y hy => by
    have hy' : y ∈ s.live := hc.closed x hx y hy
    refine (hc.nodup.mem_erase_iff).mpr ⟨?_, hy'⟩
    rintro rfl
    have hpos := inLinks_pos hx hy
    omega
  refine ⟨hc.nodup.erase p, ?_, ?_, ?_, ?_, ?_, ?_⟩
  · rw [hlive, hnext]
    exact fun x hx => hkept x (List.mem_of_mem_erase hx)
  · rw [hlive, hnext]
    exact hc.acyclic.anti fun x hx y hy => ⟨List.mem_of_mem_erase hx, hy⟩
  · intro x hx
    rw [hlive]
    rcases List.mem_append.mp hx with hx | hx
    · exact hkept p hp x (hb ▸ Option.mem_toList.mp hx)
    · refine (hc.nodup.mem_erase_iff).mpr ⟨?_, hc.alive x (List.mem_cons_of_mem _ hx)⟩
      rintro rfl
      exact List.count_eq_zero.mp hcount hx
  · intro x hx
    rw [hlive] at hx ⊢
    rw [hpbuf x hx, hnext, hc.ref x (List.mem_of_mem_erase hx), inLinks_erase hp,
      List.count_append, count_toList, hb,
      List.count_cons_of_ne (ne_of_mem_of_not_mem hx hc.nodup.not_mem_erase).symm]
    omega
  · intro x hx
    rw [hlive] at hx
    rw [hpbuf x hx]
    exact hc.pos x (List.mem_of_mem_erase hx)
  · intro x hx
    rw [hlive] at hx
    rw [hpbuf x hx]
    exact hc.lt x (List.mem_of_mem_erase hx)

@[simp] theorem freeLoop_none (n : Nat) (s : Pbufs) (count : Nat) :
    freeLoop n none s count = some (s, count) := by
  cases n <;> rfl

/-- A pointer is given up: the chain behind it is freed up to the first pbuf that is still
referred to. -/
theorem Counted.free_loop {n : Nat} {r : Option Nat} {count : Nat}
    (hc : s.Counted (r.toList ++ held)) (hn : s.live.length ≤ n) (hcount : count < 256) :
    ∃ u k, freeLoop n r s count = some (u, (count + k) % 256) ∧ u.Counted held ∧
      u.live.Sublist s.live ∧ s.live.length = u.live.length + k ∧
      ∀ p ∈ r, p ∈ u.live ↔ k = 0 := by
  induction n generalizing s r count with
  | zero =>
      cases r with
      | none => exact ⟨s, 0, by simp [Nat.mod_eq_of_lt hcount], hc, .refl _, rfl, nofun⟩
      | some p =>
          have hpos := List.length_pos_of_mem (hc.alive p List.mem_cons_self)
          omega
  | succ n ih =>
      cases r with
      | none => exact ⟨s, 0, by simp [Nat.mod_eq_of_lt hcount], hc, .refl _, rfl, nofun⟩
      | some p =>
          have hp : p ∈ s.live := hc.alive p List.mem_cons_self
          have hpos := hc.pos p hp
          have hlt := hc.lt p hp
          have hdec : ((s.pbuf p).ref + 65535) % 65536 = (s.pbuf p).ref - 1 := by omega
          simp only [Pbufs.freeLoop, modify_of_mem hp, Option.bind_some, pbuf_set_self, hdec]
          by_cases hone : (s.pbuf p).ref = 1
          · rw [if_pos (by omega)]
            obtain ⟨u, k, hloop, hu, hsub, hlen, -⟩ :=
              ih (hc.dealloc (b := { s.pbuf p with ref := (s.pbuf p).ref - 1 }) hone rfl)
                (by
                  have := List.length_erase_of_mem hp
                  rw [Pbufs.dealloc, live_set]
                  dsimp only
                  omega)
                (Nat.mod_lt (count + 1) (by decide : 0 < 256))
            have hgone : p ∉ u.live := fun hin =>
              hc.nodup.not_mem_erase (hsub.subset hin)
            have herase := List.length_erase_add_one hp
            have hmod : ((count + 1) % 256 + k) % 256 = (count + (k + 1)) % 256 := by omega
            refine ⟨u, k + 1, hmod ▸ hloop, hu, hsub.trans List.erase_sublist, ?_, ?_⟩
            · have : s.live.length = (s.live.erase p).length + 1 := herase.symm
              have : (s.live.erase p).length = u.live.length + k := hlen
              omega
            · rintro x ⟨⟩
              simp [hgone]
          · rw [if_neg (by omega)]
            have href := hc.ref p hp
            rw [Option.toList_some, List.singleton_append, List.count_cons_self] at href
            have hkept : (s.set p { s.pbuf p with ref := (s.pbuf p).ref - 1 }).Counted held :=
              hc.setRef hp (by omega) (by omega) (by omega)
                (fun x hx => hc.alive x (List.mem_cons_of_mem _ hx))
                fun x hne => (List.count_cons_of_ne hne.symm).symm
            refine ⟨_, 0, by rw [Nat.add_zero, Nat.mod_eq_of_lt hcount], hkept, .refl _, rfl, ?_⟩
            rintro x ⟨⟩
            simp [hp]

/-- **`pbuf_free`** takes one pointer back, and answers in a `u8_t` how many pbufs it freed. -/
theorem Counted.free (hc : s.Counted (p :: held)) :
    ∃ u k, s.pbuf_free p = some (u, k % 256) ∧ u.Counted held ∧
      s.live.length = u.live.length + k ∧ (p ∈ u.live ↔ k = 0) := by
  obtain ⟨u, k, hloop, hu, -, hlen, hgone⟩ :=
    Counted.free_loop (r := some p) hc (Nat.le_refl _) (by decide : 0 < 256)
  rw [Nat.zero_add] at hloop
  exact ⟨u, k, hloop, hu, hlen, hgone p rfl⟩

/-- A pbuf is set to point elsewhere. -/
theorem Counted.setNext {r : Option Nat} (hc : s.Counted (r.toList ++ held)) (hp : p ∈ s.live)
    (hacyclic : Acyclic s.live (Function.update s.next p r)) :
    (s.set p { s.pbuf p with next := r }).Counted ((s.next p).toList ++ held) := by
  have hnext : (s.set p { s.pbuf p with next := r }).next = Function.update s.next p r :=
    next_set _
  have href : ∀ x, ((s.set p { s.pbuf p with next := r }).pbuf x).ref = (s.pbuf x).ref :=
    ref_set_of_eq rfl
  refine ⟨hc.nodup, ?_, ?_, ?_, fun x hx => ?_, fun x hx => ?_, fun x hx => ?_⟩
  · rw [live_set, hnext]
    intro x hx y hy
    rcases eq_or_ne x p with rfl | hne
    · rw [Function.update_self] at hy
      exact hc.alive y (List.mem_append_left _ (Option.mem_toList.mpr hy))
    · rw [Function.update_of_ne hne] at hy
      exact hc.closed x hx y hy
  · rw [live_set, hnext]
    exact hacyclic
  · intro x hx
    rcases List.mem_append.mp hx with hx | hx
    · exact hc.closed p hp x (Option.mem_toList.mp hx)
    · exact hc.alive x (List.mem_append_right _ hx)
  · have hlinks : inLinks s.live (Function.update s.next p r) x +
        (if s.next p = some x then 1 else 0) =
          inLinks s.live s.next x + if r = some x then 1 else 0 :=
      inLinks_update hc.nodup hp r x
    rw [href, hc.ref x hx, live_set, hnext, List.count_append, List.count_append, count_toList,
      count_toList]
    omega
  · rw [href]
    exact hc.pos x hx
  · rw [href]
    exact hc.lt x hx

/-- A new pbuf belongs to the caller. -/
theorem Counted.alloc {b : Pbuf} (hc : s.Counted held) (hp : p ∉ s.live) (hb : b.next = none)
    (hone : b.ref = 1) : (s.alloc p b).Counted (p :: held) := by
  have hnext : (s.alloc p b).next = Function.update s.next p none := hb ▸ next_alloc b
  have hlive : (s.alloc p b).live = p :: s.live := rfl
  have hself : (s.alloc p b).pbuf p = b := pbuf_alloc_self b
  have hother : ∀ x ∈ s.live, (s.alloc p b).pbuf x = s.pbuf x := fun x hx =>
    pbuf_alloc_of_ne (ne_of_mem_of_not_mem hx hp) b
  have hlink : ∀ x ∈ p :: s.live, ∀ y ∈ (s.alloc p b).next x, x ∈ s.live ∧ s.next x = some y := by
    intro x hx y hy
    rw [hnext] at hy
    rcases eq_or_ne x p with rfl | hne
    · rw [Function.update_self] at hy
      cases hy
    · rw [Function.update_of_ne hne] at hy
      exact ⟨(List.mem_cons.mp hx).resolve_left hne, hy⟩
  have hlinks : ∀ x, inLinks (p :: s.live) (s.alloc p b).next x = inLinks s.live s.next x := by
    intro x
    rw [inLinks_cons, hnext, Function.update_self, inLinks_update_of_notMem hp, if_neg nofun,
      Nat.add_zero]
  refine ⟨List.nodup_cons.mpr ⟨hp, hc.nodup⟩, ?_, hc.acyclic.anti hlink, ?_, ?_, ?_, ?_⟩
  · intro x hx y hy
    obtain ⟨hx', hy'⟩ := hlink x hx y hy
    exact List.mem_cons_of_mem _ (hc.closed x hx' y hy')
  · rw [hlive, List.forall_mem_cons]
    exact ⟨List.mem_cons_self, fun x hx => List.mem_cons_of_mem _ (hc.alive x hx)⟩
  · rw [hlive, List.forall_mem_cons]
    have hnone : held.count p = 0 := List.count_eq_zero.mpr fun hin => hp (hc.alive p hin)
    refine ⟨?_, fun x hx => ?_⟩
    · rw [hself, hone, hlinks, hc.closed.inLinks_eq_zero hp, List.count_cons_self, hnone]
    · rw [hother x hx, hc.ref x hx, hlinks,
        List.count_cons_of_ne (ne_of_mem_of_not_mem hx hp).symm]
  · rw [hlive, List.forall_mem_cons]
    refine ⟨?_, fun x hx => ?_⟩
    · rw [hself, hone]
      decide
    · rw [hother x hx]
      exact hc.pos x hx
  · rw [hlive, List.forall_mem_cons]
    refine ⟨?_, fun x hx => ?_⟩
    · rw [hself, hone]
      decide
    · rw [hother x hx]
      exact hc.lt x hx

/-- What was not there before, and what nothing that was there points to, is gone with its
pointers. -/
theorem Counted.live_subset {old : List Nat} (hc : s.Counted held) (hheld : ∀ p ∈ held, p ∈ old)
    (hold : ∀ x ∈ old, ∀ y ∈ s.next x, y ∈ old) : ∀ p ∈ s.live, p ∈ old := by
  by_contra hne
  push Not at hne
  obtain ⟨p, hp, hnew⟩ := hne
  have hpnew : p ∈ s.live.filter (· ∉ old) := List.mem_filter.mpr ⟨hp, by simpa using hnew⟩
  obtain ⟨r, hr, hroot⟩ := (hc.acyclic.anti fun x hx y hy =>
    ⟨List.mem_of_mem_filter hx, hy⟩).exists_root (List.ne_nil_of_mem hpnew)
  obtain ⟨hrlive, hrnew⟩ := List.mem_filter.mp hr
  rw [decide_eq_true_eq] at hrnew
  have hpos := hc.pos r hrlive
  rw [hc.ref r hrlive, List.count_eq_zero.mpr fun hin => hrnew (hheld r hin), Nat.zero_add] at hpos
  obtain ⟨x, hx, hlink⟩ := List.countP_pos_iff.mp hpos
  have hlink := decide_eq_true_eq.mp hlink
  have hxnew : x ∉ old := fun hin => hrnew (hold x hin r hlink)
  have hxin : x ∈ s.live.filter (· ∉ old) := List.mem_filter.mpr ⟨hx, by simpa using hxnew⟩
  have hxpos := inLinks_pos hxin hlink
  exact Nat.lt_irrefl 0 (hroot ▸ hxpos)

/-! ## The calls keep the counts -/

/-- A new pbuf behind the last one of a chain. -/
theorem Counted.append {r : Nat} {b : Pbuf} (hc : s.Counted held) (hr : r ∈ s.live)
    (hlast : s.next r = none) (hq : q ∉ s.live) (hb : b.next = none) (hone : b.ref = 1) :
    ((s.alloc q b).set r { (s.alloc q b).pbuf r with next := some q }).Counted held ∧
      ((s.alloc q b).set r { (s.alloc q b).pbuf r with next := some q }).next q = none := by
  have hnew := hc.alloc hq hb hone
  have hne : r ≠ q := ne_of_mem_of_not_mem hr hq
  have hrnext : (s.alloc q b).next r = none := by
    rw [next_alloc, Function.update_of_ne hne, hlast]
  have hqnext : (s.alloc q b).next q = none := by rw [next_alloc, Function.update_self, hb]
  have hends : ¬ EndsIn (s.alloc q b).next r q := fun h =>
    hne ((endsIn_of_next_none hqnext).mp h).symm
  have hlinked := Counted.setNext (r := some q) hnew (List.mem_cons_of_mem q hr)
    (hnew.acyclic.link hrnext hends)
  rw [hrnext] at hlinked
  exact ⟨hlinked, by rw [next_set, Function.update_of_ne hne.symm, hqnext]⟩

/-- The loop of `pbuf_alloc` hands out the whole chain or frees what it took. -/
theorem Counted.tail_loop {ms : List Nat} {r rem_len : Nat} (hc : s.Counted (p :: held))
    (hr : r ∈ s.live) (hlast : s.next r = none) (hnodup : ms.Nodup)
    (hfresh : ∀ q ∈ ms, q ∉ s.live) :
    ∃ u o, tailLoop p ms r rem_len s = some (u, o) ∧ u.Counted (o.toList ++ held) := by
  induction ms generalizing r rem_len s with
  | nil =>
      rw [tailLoop]
      split
      · obtain ⟨u, k, hfree, hu, -⟩ := hc.free
        exact ⟨u, none, by rw [hfree]; rfl, hu⟩
      · exact ⟨s, some p, rfl, hc⟩
  | cons q ms ih =>
      rw [tailLoop]
      split
      · obtain ⟨hnew, hnodup⟩ := List.nodup_cons.mp hnodup
        rw [List.forall_mem_cons] at hfresh
        obtain ⟨hlinked, hqlast⟩ :=
          hc.append (b := ⟨none, rem_len, min rem_len PBUF_POOL_BUFSIZE_ALIGNED, 1⟩)
            hr hlast hfresh.1 rfl rfl
        dsimp only
        rw [modify_of_mem (List.mem_cons_of_mem q hr), Option.bind_some]
        refine ih hlinked List.mem_cons_self hqlast hnodup fun x hx => ?_
        rintro (_ | ⟨_, hin⟩)
        · exact hnew hx
        · exact hfresh.2 x hx hin
      · exact ⟨s, some p, rfl, hc⟩

/-- **`pbuf_alloc`** answers a pointer for the caller, or null and nothing is allocated. -/
theorem Counted.pbuf_alloc {ms : List Nat} (hc : s.Counted held) (hnodup : ms.Nodup)
    (hfresh : ∀ q ∈ ms, q ∉ s.live) (layer : PbufLayer) (length : Nat) (type : PbufType) :
    ∃ u o, s.pbuf_alloc layer length type ms = some (u, o) ∧ u.Counted (o.toList ++ held) := by
  cases ms with
  | nil => exact ⟨s, none, by cases type <;> rfl, hc⟩
  | cons p ms =>
      obtain ⟨hnew, hnodup⟩ := List.nodup_cons.mp hnodup
      rw [List.forall_mem_cons] at hfresh
      have hone : ∃ u o, some (s.alloc p ⟨none, length, length, 1⟩, some p) = some (u, o) ∧
          u.Counted (o.toList ++ held) :=
        ⟨_, _, rfl, hc.alloc hfresh.1 rfl rfl⟩
      cases type with
      | PBUF_RAM => exact hone
      | PBUF_ROM => exact hone
      | PBUF_REF => exact hone
      | PBUF_POOL =>
          refine (hc.alloc hfresh.1 rfl rfl).tail_loop List.mem_cons_self ?_ hnodup fun q hq => ?_
          · rw [next_alloc, Function.update_self]
          · rintro (_ | ⟨_, hin⟩)
            · exact hnew hq
            · exact hfresh.2 q hq hin

/-- `pbuf_ref` adds one to one count. -/
theorem exists_pbuf_ref (hp : p ∈ s.live) (hlt : (s.pbuf p).ref < 65535) :
    ∃ u, s.pbuf_ref p = some u ∧ u.live = s.live ∧ u.next = s.next ∧
      ∀ x, (u.pbuf x).ref = (s.pbuf x).ref + if x = p then 1 else 0 := by
  refine ⟨_, modify_of_mem hp _, rfl, next_set_of_eq rfl, fun x => ?_⟩
  rcases eq_or_ne x p with rfl | hne
  · rw [pbuf_set_self, if_pos rfl]
    exact Nat.mod_eq_of_lt (by omega)
  · rw [pbuf_set_of_ne hne, if_neg hne, Nat.add_zero]

/-- **`pbuf_ref`** makes a second pointer of one. -/
theorem Counted.pbuf_ref (hc : s.Counted held) (hp : p ∈ s.live) (hlt : (s.pbuf p).ref < 65535) :
    ∃ u, s.pbuf_ref p = some u ∧ u.Counted (p :: held) := by
  have href := hc.ref p hp
  have hinc : ((s.pbuf p).ref + 1) % 65536 = (s.pbuf p).ref + 1 := by omega
  refine ⟨_, modify_of_mem hp _, ?_⟩
  rw [hinc]
  refine hc.setRef hp ?_ (Nat.succ_pos _) (by omega) ?_ fun x hne => ?_
  · rw [List.count_cons_self]
    omega
  · exact List.forall_mem_cons.mpr ⟨hp, hc.alive⟩
  · exact List.count_cons_of_ne hne.symm

/-- What the walk of `pbuf_cat` leaves: one link more, at the end of the chain. -/
theorem exists_catLoop {rank : Nat → Nat} {n : Nat} (hclosed : Closed s.live s.next)
    (hrank : Ranked rank s.live s.next) (ht : t ∈ s.live) (hp : p ∈ s.live) (hn : rank p < n) :
    ∃ u, catLoop t n p s = some u ∧ u.live = s.live ∧
      u.next = Function.update s.next (lastOf s.next n p) (some t) ∧
      ∀ x, (u.pbuf x).ref = (s.pbuf x).ref := by
  induction n generalizing p s with
  | zero => omega
  | succ n ih =>
      rw [catLoop, read_of_mem ht, Option.bind_some, modify_of_mem hp, Option.bind_some]
      generalize hs : s.set p { s.pbuf p with
        tot_len := ((s.pbuf p).tot_len + (s.pbuf t).tot_len) % 65536 } = u
      have hlive : u.live = s.live := hs ▸ rfl
      have hnext : u.next = s.next := hs ▸ next_set_of_eq rfl
      have href : ∀ x, (u.pbuf x).ref = (s.pbuf x).ref := hs ▸ ref_set_of_eq rfl
      have heq : (u.pbuf p).next = s.next p := congrFun hnext p
      rw [heq]
      cases hcase : s.next p with
      | none =>
          have hlast : lastOf s.next (n + 1) p = p := by simp only [lastOf, hcase]
          refine ⟨_, modify_of_mem (hlive ▸ hp) _, hlive, ?_, fun x => ?_⟩
          · rw [next_set, hnext, hlast]
          · exact Eq.trans (ref_set_of_eq (by rfl) x) (href x)
      | some q =>
          have hlast : lastOf s.next (n + 1) p = lastOf s.next n q := by simp only [lastOf, hcase]
          have hlt := hrank p hp q hcase
          obtain ⟨w, hw, hwlive, hwnext, hwref⟩ := ih (s := u) (p := q)
            (by rw [hlive, hnext]; exact hclosed) (by rw [hlive, hnext]; exact hrank)
            (hlive ▸ ht) (hlive ▸ hclosed p hp q hcase) (by omega)
          exact ⟨w, hw, hwlive.trans hlive, by rw [hwnext, hnext, hlast],
            fun x => (hwref x).trans (href x)⟩

/-- The last pbuf of the chain of `p`. -/
def last (s : Pbufs) (p : Nat) : Nat := lastOf s.next s.live.length p

/-- `pbuf_cat` links the last pbuf of the head to the tail. -/
theorem Counted.exists_cat (hc : s.Counted held) (hh : h ∈ s.live) (ht : t ∈ s.live) :
    ∃ u, s.pbuf_cat h t = some u ∧ u.live = s.live ∧
      u.next = Function.update s.next (s.last h) (some t) ∧
      ∀ x, (u.pbuf x).ref = (s.pbuf x).ref := by
  obtain ⟨rank, hrank, hlt⟩ := hc.acyclic.exists_bounded hc.closed
  exact exists_catLoop hc.closed hrank ht hh (hlt h hh)

/-- The end of a chain takes over a pointer to a chain that ends elsewhere. -/
theorem Counted.linkLast (hc : s.Counted (t :: held)) (hh : h ∈ s.live)
    (hne : s.last h ≠ s.last t) :
    (s.set (s.last h) { s.pbuf (s.last h) with next := some t }).Counted held := by
  obtain ⟨hlast, hends⟩ := hc.acyclic.endsIn_lastOf hc.closed hh
  obtain ⟨-, hends'⟩ := hc.acyclic.endsIn_lastOf hc.closed (hc.alive t List.mem_cons_self)
  have hacyclic := hc.acyclic.link hlast fun hcycle => hne (hcycle.unique hends')
  have hlinked := Counted.setNext (r := some t) hc (hends.mem hc.closed hh) hacyclic
  rw [hlast] at hlinked
  exact hlinked

/-- **`pbuf_cat`** takes the caller's pointer to the tail over into the chain. -/
theorem Counted.pbuf_cat (hc : s.Counted (t :: held)) (hh : h ∈ s.live)
    (hne : s.last h ≠ s.last t) : ∃ u, s.pbuf_cat h t = some u ∧ u.Counted held := by
  obtain ⟨u, hu, hlive, hnext, href⟩ := hc.exists_cat hh (hc.alive t List.mem_cons_self)
  refine ⟨u, hu, (hc.linkLast hh hne).congr hlive (by rw [hnext, next_set]) (fun x => ?_)
    (.refl _)⟩
  exact (href x).trans (Eq.symm (ref_set_of_eq (by rfl) x))

/-- **`pbuf_chain`** leaves the caller a pointer to the tail of its own. -/
theorem Counted.pbuf_chain (hc : s.Counted held) (hh : h ∈ s.live) (ht : t ∈ s.live)
    (hlt : (s.pbuf t).ref < 65535) (hne : s.last h ≠ s.last t) :
    ∃ u, s.pbuf_chain h t = some u ∧ u.Counted held := by
  obtain ⟨u, hu, hlive, hnext, href⟩ := hc.exists_cat hh ht
  obtain ⟨w, hw, hwlive, hwnext, hwref⟩ :=
    exists_pbuf_ref (s := u) (hlive ▸ ht) (by rw [href]; exact hlt)
  -- the same as raising the count first
  obtain ⟨v, hv, hvlive, hvnext, hvref⟩ := exists_pbuf_ref ht hlt
  obtain ⟨v', hv', hcv⟩ := hc.pbuf_ref ht hlt
  obtain rfl : v = v' := Option.some.inj (hv.symm.trans hv')
  have hvlast : ∀ x, v.last x = s.last x := fun x => by rw [last, last, hvlive, hvnext]
  have hlinked := hcv.linkLast (h := h) (hvlive ▸ hh) (by rwa [hvlast, hvlast])
  refine ⟨w, by rw [Pbufs.pbuf_chain, hu]; exact hw,
    hlinked.congr (hwlive.trans (hlive.trans hvlive.symm)) ?_ (fun x => ?_) (.refl _)⟩
  · rw [hwnext, hnext, next_set, hvnext, hvlast]
  · rw [hwref, href, ← hvref]
    exact Eq.symm (ref_set_of_eq (by rfl) x)

/-- The first pbuf of a chain lets go of the rest. -/
theorem Counted.pbuf_dechain (hc : s.Counted held) (hp : p ∈ s.live) :
    ∃ u o k, s.pbuf_dechain p = some (u, o) ∧ u.Counted held ∧
      s.live.length = u.live.length + k ∧ (s.next p = none → o = none) ∧
      ∀ q ∈ s.next p, (o = if 0 < k % 256 then none else some q) ∧ (q ∈ u.live ↔ k = 0) := by
  rw [Pbufs.pbuf_dechain, read_of_mem hp, Option.bind_some]
  have hcase : s.next p = (s.pbuf p).next := rfl
  cases hnext : (s.pbuf p).next with
  | none =>
      refine ⟨s, none, 0, rfl, hc, rfl, fun _ => rfl, fun q hq => ?_⟩
      rw [hcase, hnext] at hq
      cases hq
  | some q =>
      have hq : q ∈ s.live := hc.closed p hp q (hcase.trans hnext)
      dsimp only
      rw [modify_of_mem hq, Option.bind_some]
      generalize hu : s.set q { s.pbuf q with
        tot_len := ((s.pbuf p).tot_len + 65536 - (s.pbuf p).len) % 65536 } = u
      have hlive : u.live = s.live := hu ▸ rfl
      have hunext : u.next = s.next := hu ▸ next_set_of_eq rfl
      have hcu : u.Counted held := hc.congr hlive hunext (hu ▸ ref_set_of_eq rfl) (.refl _)
      have hacyclic : Acyclic u.live (Function.update u.next p none) :=
        hcu.acyclic.anti fun x hx y hy => by
          rcases eq_or_ne x p with rfl | hne
          · rw [Function.update_self] at hy
            cases hy
          · rw [Function.update_of_ne hne] at hy
            exact ⟨hx, hy⟩
      have hcut := Counted.setNext (r := none) hcu (hlive ▸ hp) hacyclic
      rw [hunext, hcase, hnext] at hcut
      rw [modify_of_mem (hlive ▸ hp), Option.bind_some]
      have hcv : (u.set p { u.pbuf p with next := none, tot_len := (u.pbuf p).len }).Counted
          (q :: held) :=
        hcut.congr rfl (by rw [next_set, next_set]) (fun x => Eq.trans (ref_set_of_eq (by rfl) x)
          (Eq.symm (ref_set_of_eq (by rfl) x))) (.refl _)
      obtain ⟨w, k, hw, hcw, hlen, hgone⟩ := hcv.free
      refine ⟨w, _, k, by rw [hw]; rfl, hcw, ?_, fun h => ?_, ?_⟩
      · rw [← hlen, live_set, hlive]
      · rw [hcase, hnext] at h
        cases h
      · rintro x hx
        rw [hcase, hnext] at hx
        obtain rfl := Option.some.inj hx
        exact ⟨rfl, hgone⟩

end Pbufs

end NetCamera.Lwip
