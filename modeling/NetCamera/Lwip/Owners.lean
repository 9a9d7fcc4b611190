import NetCamera.Lwip.Pbuf

/-!
# NetCamera.Lwip.Owners

The packet buffers in use.  Clients hold pointers to pbufs: they get one with a new chain and with
`pbuf_ref`, give one up with `pbuf_free`, and hand one over to a chain with `pbuf_cat`.  They free
and hand over only what they hold, refer only to what is allocated, and do not close a chain to a
ring.

The count of a pbuf is a `u16_t`.  As long as no client refers to a pbuf that has 65535 pointers,
the counts are right (`run_counted`), every call comes to an end and touches no pbuf that was
freed (`run_served`), and nothing stays behind when the clients hold no pointer
(`run_none_left`).  But `pbuf_dechain` goes by a `u8_t` number of freed pbufs (`run_dechain`).
-/

namespace NetCamera.Lwip

open Run Links

/-- The pbufs, and the pointers that the clients hold. -/
structure Owners where
  pbufs : Pbufs
  held : List Nat

inductive PbufEvent where
  | pbuf_alloc (layer : PbufLayer) (length : Nat) (type : PbufType) (ms : List Nat)
  | pbuf_ref (p : Nat)
  | pbuf_free (p : Nat)
  | pbuf_cat (h t : Nat)
  | pbuf_chain (h t : Nat)
  | pbuf_dechain (p : Nat)
  deriving DecidableEq, Repr

namespace Owners

def boot (memory : Nat → Pbuf) : Owners := ⟨⟨[], memory⟩, []⟩

/-- What clients, and the allocators below, keep to. -/
def Allowed (s : Owners) : PbufEvent → Prop
  | .pbuf_alloc _ _ _ ms => ms.Nodup ∧ ∀ q ∈ ms, q ∉ s.pbufs.live
  | .pbuf_ref p => p ∈ s.pbufs.live
  | .pbuf_free p => p ∈ s.held
  | .pbuf_cat h t => h ∈ s.pbufs.live ∧ t ∈ s.held ∧ s.pbufs.last h ≠ s.pbufs.last t
  | .pbuf_chain h t =>
      h ∈ s.pbufs.live ∧ t ∈ s.pbufs.live ∧ s.pbufs.last h ≠ s.pbufs.last t
  | .pbuf_dechain p => p ∈ s.pbufs.live

instance (s : Owners) : (ev : PbufEvent) → Decidable (s.Allowed ev)
  | .pbuf_alloc _ _ _ _ => inferInstanceAs (Decidable (_ ∧ _))
  | .pbuf_ref p => inferInstanceAs (Decidable (p ∈ s.pbufs.live))
  | .pbuf_free p => inferInstanceAs (Decidable (p ∈ s.held))
  | .pbuf_cat _ _ => inferInstanceAs (Decidable (_ ∧ _))
  | .pbuf_chain _ _ => inferInstanceAs (Decidable (_ ∧ _))
  | .pbuf_dechain p => inferInstanceAs (Decidable (p ∈ s.pbufs.live))

/-- The call, and the pointers held behind it. -/
def call (s : Owners) : PbufEvent → Option Owners
  | .pbuf_alloc layer length type ms =>
      (s.pbufs.pbuf_alloc layer length type ms).map fun (u, p) => ⟨u, p.toList ++ s.held⟩
  | .pbuf_ref p => (s.pbufs.pbuf_ref p).map fun u => ⟨u, p :: s.held⟩
  | .pbuf_free p => (s.pbufs.pbuf_free p).map fun (u, _) => ⟨u, s.held.erase p⟩
  | .pbuf_cat h t => (s.pbufs.pbuf_cat h t).map fun u => ⟨u, s.held.erase t⟩
  | .pbuf_chain h t => (s.pbufs.pbuf_chain h t).map fun u => ⟨u, s.held⟩
  | .pbuf_dechain p => (s.pbufs.pbuf_dechain p).map fun (u, _) => ⟨u, s.held⟩

def step (s : Owners) (ev : PbufEvent) : Option Owners := if s.Allowed ev then s.call ev else none

/-- No count is raised beyond a `u16_t`. -/
def Fits (s : Owners) : PbufEvent → Prop
  | .pbuf_ref p => (s.pbufs.pbuf p).ref < 65535
  | .pbuf_chain _ t => (s.pbufs.pbuf t).ref < 65535
  | _ => True

instance (s : Owners) : (ev : PbufEvent) → Decidable (s.Fits ev)
  | .pbuf_alloc _ _ _ _ => .isTrue trivial
  | .pbuf_ref _ => inferInstanceAs (Decidable (_ < _))
  | .pbuf_free _ => .isTrue trivial
  | .pbuf_cat _ _ => .isTrue trivial
  | .pbuf_chain _ _ => inferInstanceAs (Decidable (_ < _))
  | .pbuf_dechain _ => .isTrue trivial

variable {s s' : Owners} {evs : List PbufEvent} {memory : Nat → Pbuf}

def Inv (s : Owners) : Prop := s.pbufs.Counted s.held

theorem inv_boot (memory : Nat → Pbuf) : (boot memory).Inv where
  nodup := .nil
  closed := nofun
  acyclic := ⟨fun _ => 0, nofun⟩
  alive := nofun
  ref := nofun
  pos := nofun
  lt := nofun

theorem Inv.takeOut {p : Nat} (hinv : s.Inv) (hp : p ∈ s.held) :
    s.pbufs.Counted (p :: s.held.erase p) :=
  Pbufs.Counted.congr hinv rfl rfl (fun _ => rfl) (List.perm_cons_erase hp).symm

/-- What is allowed is done, and the counts are right again. -/
theorem Inv.call {ev : PbufEvent} (hinv : s.Inv) (hallowed : s.Allowed ev) (hfits : s.Fits ev) :
    ∃ s', s.call ev = some s' ∧ s'.Inv := by
  cases ev with
  | pbuf_alloc layer length type ms =>
      obtain ⟨u, o, hu, hc⟩ :=
        Pbufs.Counted.pbuf_alloc hinv hallowed.1 hallowed.2 layer length type
      exact ⟨⟨u, o.toList ++ s.held⟩, by rw [Owners.call, hu]; rfl, hc⟩
  | pbuf_ref p =>
      obtain ⟨u, hu, hc⟩ := Pbufs.Counted.pbuf_ref hinv hallowed hfits
      exact ⟨⟨u, p :: s.held⟩, by rw [Owners.call, hu]; rfl, hc⟩
  | pbuf_free p =>
      obtain ⟨u, k, hu, hc, -⟩ := (hinv.takeOut hallowed).free
      exact ⟨⟨u, s.held.erase p⟩, by rw [Owners.call, hu]; rfl, hc⟩
  | pbuf_cat h t =>
      obtain ⟨hh, ht, hne⟩ := hallowed
      obtain ⟨u, hu, hc⟩ := (hinv.takeOut ht).pbuf_cat hh hne
      exact ⟨⟨u, s.held.erase t⟩, by rw [Owners.call, hu]; rfl, hc⟩
  | pbuf_chain h t =>
      obtain ⟨hh, ht, hne⟩ := hallowed
      obtain ⟨u, hu, hc⟩ := Pbufs.Counted.pbuf_chain hinv hh ht hfits hne
      exact ⟨⟨u, s.held⟩, by rw [Owners.call, hu]; rfl, hc⟩
  | pbuf_dechain p =>
      obtain ⟨u, o, k, hu, hc, -⟩ := Pbufs.Counted.pbuf_dechain hinv hallowed
      exact ⟨⟨u, s.held⟩, by rw [Owners.call, hu]; rfl, hc⟩

theorem inv_step (hinv : s.Inv) {ev : PbufEvent} (hfits : s.Fits ev)
    (hstep : s.step ev = some s') : s'.Inv := by
  rw [step, Option.ite_none_right_eq_some] at hstep
  obtain ⟨hallowed, hcall⟩ := hstep
  obtain ⟨u, hu, hinv'⟩ := hinv.call hallowed hfits
  exact Option.some.inj (hcall.symm.trans hu) ▸ hinv'

theorem inv_of_run (hrun : RunBy step Fits (boot memory) evs s) : s.Inv :=
  hrun.invariant (fun _ _ _ hinv hfits hstep => inv_step hinv hfits hstep) (inv_boot memory)

/-- How many pointers there are to a pbuf: the clients', and those of other pbufs. -/
def pointers (s : Owners) (p : Nat) : Nat :=
  s.held.count p + inLinks s.pbufs.live s.pbufs.next p

/-- **The reference count always equals the number of pointers.**  And a pbuf is allocated exactly
while there are pointers to it. -/
theorem run_counted (hrun : RunBy step Fits (boot memory) evs s) :
    (∀ p ∈ s.pbufs.live, (s.pbufs.pbuf p).ref = s.pointers p) ∧
      ∀ p, p ∈ s.pbufs.live ↔ 0 < s.pointers p := by
  have hinv := inv_of_run hrun
  refine ⟨hinv.ref, fun p => ⟨fun hp => ?_, fun hpos => ?_⟩⟩
  · rw [pointers, ← hinv.ref p hp]
    exact hinv.pos p hp
  · by_contra hp
    have hheld : s.held.count p = 0 := List.count_eq_zero.mpr fun hin => hp (hinv.alive p hin)
    rw [pointers, hheld, hinv.closed.inLinks_eq_zero hp] at hpos
    exact Nat.lt_irrefl _ hpos

/-- Pbufs to start from, and what some events make of them. -/
def fresh : Owners := boot fun _ => ⟨none, 0, 0, 0⟩

def behind (evs : List PbufEvent) : Owners := (run step fresh evs).getD fresh

theorem run_behind {evs : List PbufEvent} (h : (run step fresh evs).isSome = true)
    (hfits : Steps step Fits fresh evs) : RunBy step Fits fresh evs (behind evs) :=
  ⟨by rw [behind, Option.getD_of_ne_none (Option.isSome_iff_ne_none.mp h)], hfits⟩

/-- A chain of two, with a second pointer to the first. -/
def two : List PbufEvent := [.pbuf_alloc .PBUF_RAW 600 .PBUF_POOL [1, 2, 3], .pbuf_ref 1]

/-- A third one before them. -/
def three : List PbufEvent := two ++ [.pbuf_alloc .PBUF_IP 20 .PBUF_RAM [3], .pbuf_chain 3 1]

theorem run_counted_three :
    (∀ p ∈ (behind three).pbufs.live,
        ((behind three).pbufs.pbuf p).ref = (behind three).pointers p) ∧
      ∀ p, p ∈ (behind three).pbufs.live ↔ 0 < (behind three).pointers p :=
  run_counted (run_behind (by decide +kernel) (by decide +kernel))

example : (behind three).pointers 1 = 3 := by decide +kernel

/-- **No call fails.**  What is allowed comes to an end, and touches no pbuf that was freed. -/
theorem run_served (hrun : RunBy step Fits (boot memory) evs s) {ev : PbufEvent}
    (hallowed : s.Allowed ev) (hfits : s.Fits ev) : ∃ s', s.call ev = some s' := by
  obtain ⟨s', hcall, -⟩ := (inv_of_run hrun).call hallowed hfits
  exact ⟨s', hcall⟩

theorem run_served_dechain : ∃ s', (behind two).call (.pbuf_dechain 1) = some s' :=
  run_served (run_behind (by decide +kernel) (by decide +kernel)) (by decide +kernel)
    (by decide +kernel)

/-- **Nothing is left.**  When the clients hold no pointer, all pbufs have been freed. -/
theorem run_none_left (hrun : RunBy step Fits (boot memory) evs s) (hnone : s.held = []) :
    s.pbufs.live = [] := by
  have hinv := inv_of_run hrun
  by_contra hne
  obtain ⟨p, hp, hroot⟩ := hinv.acyclic.exists_root hne
  have hpos := hinv.pos p hp
  rw [hinv.ref p hp, hnone, hroot] at hpos
  exact Nat.lt_irrefl _ hpos

theorem run_none_left_two : (behind (two ++ [.pbuf_free 1, .pbuf_free 1])).pbufs.live = [] :=
  run_none_left (run_behind (by decide +kernel) (by decide +kernel)) (by decide +kernel)

/-- **`pbuf_dechain`** answers the rest of the chain while that is still allocated.  Behind a call
that freed it, the answer is NULL, unless the number of pbufs freed is a multiple of 256: then it
is a pbuf that is no longer there. -/
theorem run_dechain (hrun : RunBy step Fits (boot memory) evs s) {p q : Nat}
    (hp : p ∈ s.pbufs.live) (hq : s.pbufs.next p = some q) :
    ∃ u o k, s.pbufs.pbuf_dechain p = some (u, o) ∧ s.pbufs.live.length = u.live.length + k ∧
      (q ∈ u.live ↔ k = 0) ∧ (o = some q ↔ 256 ∣ k) ∧ (o = none ↔ ¬ 256 ∣ k) := by
  obtain ⟨u, o, k, hu, -, hlen, -, hrest⟩ := (inv_of_run hrun).pbuf_dechain hp
  obtain ⟨ho, hgone⟩ := hrest q hq
  refine ⟨u, o, k, hu, hlen, hgone, ?_, ?_⟩
  · rw [ho, Nat.dvd_iff_mod_eq_zero]
    split <;> simp <;> omega
  · rw [ho, Nat.dvd_iff_mod_eq_zero]
    split <;> simp <;> omega

theorem run_dechain_two :
    ∃ u o k, (behind two).pbufs.pbuf_dechain 1 = some (u, o) ∧
      (behind two).pbufs.live.length = u.live.length + k ∧
      (2 ∈ u.live ↔ k = 0) ∧ (o = some 2 ↔ 256 ∣ k) ∧ (o = none ↔ ¬ 256 ∣ k) :=
  run_dechain (run_behind (by decide +kernel) (by decide +kernel)) (by decide +kernel)
    (by decide +kernel)

end Owners

end NetCamera.Lwip
