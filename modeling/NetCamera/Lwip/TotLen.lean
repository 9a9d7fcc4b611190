import NetCamera.Lwip.Owners

/-!
# NetCamera.Lwip.TotLen

The total lengths: in a chain that is not a queue, the `tot_len` of a pbuf is its `len` and the
`tot_len` of the next one.

`pbuf_cat` updates the pbufs on the chain it walks, and `pbuf_dechain` the first one.  Where such
a chain is also entered from another pbuf, that one keeps a stale length; otherwise, in every run,
all lengths are right (`run_tot_len`).
-/

namespace NetCamera.Lwip

open Run Links

namespace Pbufs

variable {s u : Pbufs} {held : List Nat} {p q h t : Nat}

/-- The total length behind `p`. -/
def rest (s : Pbufs) (p : Nat) : Nat :=
  match s.next p with
  | none => 0
  | some q => (s.pbuf q).tot_len

/-- Nothing follows the last pbuf of a chain. -/
theorem rest_of_next_none (h : s.next p = none) : s.rest p = 0 := by
  simp only [rest, h]

theorem rest_of_next (h : s.next p = some q) : s.rest p = (s.pbuf q).tot_len := by
  simp only [rest, h]

/-- What follows `p` depends on its link and on the length stored behind it. -/
theorem rest_congr (hnext : u.next p = s.next p)
    (htot : ∀ q ∈ s.next p, (u.pbuf q).tot_len = (s.pbuf q).tot_len) : u.rest p = s.rest p := by
  cases hcase : s.next p with
  | none => rw [rest_of_next_none hcase, rest_of_next_none (hnext.trans hcase)]
  | some q => rw [rest_of_next hcase, rest_of_next (hnext.trans hcase), htot q hcase]

/-- The length of `p` is right. -/
def Total (s : Pbufs) (p : Nat) : Prop :=
  (s.pbuf p).tot_len = ((s.pbuf p).len + s.rest p) % 65536 ∧ (s.pbuf p).len < 65536

/-- All lengths are right. -/
def Totals (s : Pbufs) : Prop := ∀ p ∈ s.live, s.Total p

/-! ## Frees and references -/

/-- Nothing but counts is different. -/
def SameData (s u : Pbufs) : Prop :=
  ∀ x, { u.pbuf x with ref := 0 } = { s.pbuf x with ref := 0 }

/-- Links and lengths are data. -/
theorem SameData.next_eq (hdata : SameData s u) (x : Nat) : u.next x = s.next x :=
  (Pbuf.mk.inj (hdata x)).1

theorem SameData.tot_len_eq (hdata : SameData s u) (x : Nat) :
    (u.pbuf x).tot_len = (s.pbuf x).tot_len :=
  (Pbuf.mk.inj (hdata x)).2.1

theorem SameData.len_eq (hdata : SameData s u) (x : Nat) : (u.pbuf x).len = (s.pbuf x).len :=
  (Pbuf.mk.inj (hdata x)).2.2.1

/-- So a length stays right. -/
theorem SameData.total (hdata : SameData s u) (htotal : s.Total p) : u.Total p := by
  have hrest : u.rest p = s.rest p :=
    rest_congr (hdata.next_eq p) fun q _ => hdata.tot_len_eq q
  rw [Total, hdata.tot_len_eq, hdata.len_eq, hrest]
  exact htotal

/-- Frees and counts leave all lengths right. -/
theorem Totals.of_data (htotals : s.Totals) (hdata : SameData s u)
    (hsub : ∀ x ∈ u.live, x ∈ s.live) : u.Totals := fun x hx => hdata.total (htotals x (hsub x hx))

/-- A pbuf can be written exactly while it is allocated. -/
theorem modify_eq_some {f : Pbuf → Pbuf} :
    s.modify p f = some u ↔ p ∈ s.live ∧ s.set p (f (s.pbuf p)) = u := by
  rw [modify, Option.ite_none_right_eq_some, Option.some.injEq]

/-- Writing a count changes no data. -/
theorem sameData_set {b : Pbuf} (hb : { b with ref := 0 } = { s.pbuf p with ref := 0 }) :
    SameData s (s.set p b) := by
  intro x
  rcases eq_or_ne x p with rfl | hne
  · rw [pbuf_set_self]
    exact hb
  · rw [pbuf_set_of_ne hne]

/-- `pbuf_free` frees pbufs and counts down, and no more. -/
theorem sameData_free {n : Nat} {r : Option Nat} {count k : Nat}
    (hloop : freeLoop n r s count = some (u, k)) : SameData s u ∧ ∀ x ∈ u.live, x ∈ s.live := by
  induction n generalizing s r count with
  | zero =>
      cases r with
      | none =>
          rw [freeLoop_none, Option.some.injEq, Prod.mk.injEq] at hloop
          rw [← hloop.1]
          exact ⟨fun _ => rfl, fun _ => id⟩
      | some p => cases hloop
  | succ n ih =>
      cases r with
      | none =>
          rw [freeLoop_none, Option.some.injEq, Prod.mk.injEq] at hloop
          rw [← hloop.1]
          exact ⟨fun _ => rfl, fun _ => id⟩
      | some p =>
          rw [freeLoop, Option.bind_eq_some_iff] at hloop
          obtain ⟨v, hv, hloop⟩ := hloop
          obtain ⟨-, rfl⟩ := modify_eq_some.mp hv
          have hdata : SameData s (s.set p { s.pbuf p with
              ref := ((s.pbuf p).ref + 65535) % 65536 }) := sameData_set rfl
          split at hloop
          · obtain ⟨hrest, hsub⟩ := ih hloop
            exact ⟨fun x => (hrest x).trans (hdata x),
              fun x hx => List.mem_of_mem_erase (hsub x hx)⟩
          · rw [Option.some.injEq, Prod.mk.injEq] at hloop
            rw [← hloop.1]
            exact ⟨hdata, fun _ => id⟩

/-! ## `pbuf_alloc` -/

/-- All lengths are right but that of `r`, which counts on `rem_len` more bytes behind it. -/
structure Pending (s : Pbufs) (r rem_len : Nat) : Prop where
  mem : r ∈ s.live
  last : s.next r = none
  others : ∀ x ∈ s.live, x ≠ r → s.Total x
  tot_len : (s.pbuf r).tot_len = (s.pbuf r).len + rem_len
  lt : (s.pbuf r).tot_len < 65536

/-- With nothing left to allocate all lengths are right. -/
theorem Pending.totals {r : Nat} (hpending : s.Pending r 0) : s.Totals := by
  intro x hx
  rcases eq_or_ne x r with rfl | hne
  · have htot := hpending.tot_len
    have hlt := hpending.lt
    rw [Total, rest_of_next_none hpending.last]
    omega
  · exact hpending.others x hx hne

/-- The next pbuf of the chain is there. -/
theorem Pending.append {r rem_len len : Nat} (hc : s.Counted held)
    (hpending : s.Pending r rem_len) (hq : q ∉ s.live) (hlen : len ≤ rem_len) :
    ((s.alloc q ⟨none, rem_len, len, 1⟩).set r
      { (s.alloc q ⟨none, rem_len, len, 1⟩).pbuf r with next := some q }).Pending q
        (rem_len - len) := by
  have hne : r ≠ q := ne_of_mem_of_not_mem hpending.mem hq
  have hlast := (hc.append (b := ⟨none, rem_len, len, 1⟩) hpending.mem hpending.last hq rfl rfl).2
  generalize hb : (⟨none, rem_len, len, 1⟩ : Pbuf) = b at *
  have hpr : ((s.alloc q b).set r { (s.alloc q b).pbuf r with next := some q }).pbuf r =
      { s.pbuf r with next := some q } := by
    rw [pbuf_set_self, pbuf_alloc_of_ne hne]
  have hpq : ((s.alloc q b).set r { (s.alloc q b).pbuf r with next := some q }).pbuf q = b := by
    rw [pbuf_set_of_ne hne.symm, pbuf_alloc_self]
  have hpx : ∀ x, x ≠ r → x ≠ q →
      ((s.alloc q b).set r { (s.alloc q b).pbuf r with next := some q }).pbuf x = s.pbuf x :=
    fun x hxr hxq => by rw [pbuf_set_of_ne hxr, pbuf_alloc_of_ne hxq]
  have hlive : ((s.alloc q b).set r { (s.alloc q b).pbuf r with next := some q }).live =
      q :: s.live := rfl
  generalize (s.alloc q b).set r { (s.alloc q b).pbuf r with next := some q } = v at *
  have hrtot := hpending.tot_len
  have hrlt := hpending.lt
  have htot : ∀ y ∈ s.live, (v.pbuf y).tot_len = (s.pbuf y).tot_len := fun y hy => by
    rcases eq_or_ne y r with rfl | hyr
    · rw [hpr]
    · rw [hpx y hyr (ne_of_mem_of_not_mem hy hq)]
  refine ⟨hlive ▸ List.mem_cons_self, hlast, ?_, ?_, ?_⟩
  · rw [hlive, List.forall_mem_cons]
    refine ⟨fun h => absurd rfl h, fun x hx hxq => ?_⟩
    rcases eq_or_ne x r with rfl | hxr
    · have hxnext : v.next x = some q := congrArg Pbuf.next hpr
      rw [Total, rest_of_next hxnext, hpq, hpr, ← hb]
      dsimp only
      omega
    · have hrest : v.rest x = s.rest x :=
        rest_congr (congrArg Pbuf.next (hpx x hxr hxq)) fun y hy => htot y (hc.closed x hx y hy)
      rw [Total, hrest, hpx x hxr hxq]
      exact hpending.others x hx hxr
  · rw [hpq, ← hb]
    dsimp only
    omega
  · rw [hpq, ← hb]
    dsimp only
    omega

/-- The loop of `pbuf_alloc` allocates what its head has announced. -/
theorem totals_tailLoop {old : List Nat} {ms : List Nat} {r rem_len : Nat} {o : Option Nat}
    (hc : s.Counted (p :: held)) (hheld : ∀ x ∈ held, x ∈ old) (hlive : ∀ x ∈ old, x ∈ s.live)
    (hold : ∀ x ∈ old, ∀ y ∈ s.next x, y ∈ old) (hrnew : r ∉ old)
    (hpending : s.Pending r rem_len) (hnodup : ms.Nodup) (hfresh : ∀ q ∈ ms, q ∉ s.live)
    (hloop : tailLoop p ms r rem_len s = some (u, o)) : u.Totals := by
  induction ms generalizing r rem_len s with
  | nil =>
      rw [tailLoop] at hloop
      split at hloop
      · -- the new ones are all freed, `r` with them
        obtain ⟨v, k, hfree, hcv, -⟩ := hc.free
        obtain ⟨hdata, hsub⟩ := sameData_free hfree
        rw [hfree, Option.map_some, Option.some.injEq, Prod.mk.injEq] at hloop
        obtain ⟨rfl, -⟩ := hloop
        have hin := hcv.live_subset hheld fun x hx y hy => hold x hx y (hdata.next_eq x ▸ hy)
        intro x hx
        exact hdata.total
          (hpending.others x (hsub x hx) (ne_of_mem_of_not_mem (hin x hx) hrnew))
      · obtain rfl : rem_len = 0 := by omega
        rw [Option.some.injEq, Prod.mk.injEq] at hloop
        exact hloop.1 ▸ hpending.totals
  | cons q ms ih =>
      rw [tailLoop] at hloop
      split at hloop
      · obtain ⟨hnew, hnodup⟩ := List.nodup_cons.mp hnodup
        rw [List.forall_mem_cons] at hfresh
        obtain ⟨hqlive, hfresh⟩ := hfresh
        obtain ⟨hlinked, -⟩ :=
          hc.append (b := ⟨none, rem_len, min rem_len PBUF_POOL_BUFSIZE_ALIGNED, 1⟩)
            hpending.mem hpending.last hqlive rfl rfl
        dsimp only at hloop
        rw [modify_of_mem (List.mem_cons_of_mem q hpending.mem), Option.bind_some] at hloop
        refine ih hlinked (fun x hx => List.mem_cons_of_mem q (hlive x hx)) (fun x hx y hy => ?_)
          (fun hin => hqlive (hlive q hin))
          (hpending.append hc hqlive (Nat.min_le_left ..)) hnodup (fun x hx => ?_) hloop
        · rw [next_set, Function.update_of_ne (ne_of_mem_of_not_mem hx hrnew), next_alloc,
            Function.update_of_ne (ne_of_mem_of_not_mem (hlive x hx) hqlive)] at hy
          exact hold x hx y hy
        · rintro (_ | ⟨_, hin⟩)
          · exact hnew hx
          · exact hfresh x hx hin
      · obtain rfl : rem_len = 0 := by omega
        rw [Option.some.injEq, Prod.mk.injEq] at hloop
        exact hloop.1 ▸ hpending.totals

/-- A pbuf by itself. -/
theorem total_alloc {b : Pbuf} (hc : s.Counted held) (htotals : s.Totals) (hp : p ∉ s.live) :
    ∀ x ∈ s.live, (s.alloc p b).Total x := by
  intro x hx
  have hne := ne_of_mem_of_not_mem hx hp
  have hrest : (s.alloc p b).rest x = s.rest x := by
    refine rest_congr (congrArg Pbuf.next (pbuf_alloc_of_ne hne b)) fun q hq => ?_
    rw [pbuf_alloc_of_ne (ne_of_mem_of_not_mem (hc.closed x hx q hq) hp)]
  rw [Total, hrest, pbuf_alloc_of_ne hne]
  exact htotals x hx

/-- A new pbuf by itself. -/
theorem Totals.alloc {n : Nat} (hc : s.Counted held) (htotals : s.Totals) (hp : p ∉ s.live)
    (hn : n < 65536) : (s.alloc p ⟨none, n, n, 1⟩).Totals := by
  have hself : (s.alloc p ⟨none, n, n, 1⟩).pbuf p = ⟨none, n, n, 1⟩ := pbuf_alloc_self _
  refine List.forall_mem_cons.mpr ⟨?_, total_alloc hc htotals hp⟩
  rw [Total, rest_of_next_none (congrArg Pbuf.next hself), hself]
  exact ⟨(Nat.mod_eq_of_lt hn).symm, hn⟩

/-- A new chain. -/
theorem Totals.pbuf_alloc {layer : PbufLayer} {length : Nat} {type : PbufType} {ms : List Nat}
    {o : Option Nat} (hc : s.Counted held) (htotals : s.Totals) (hlength : length < 65536)
    (hnodup : ms.Nodup) (hfresh : ∀ q ∈ ms, q ∉ s.live)
    (halloc : s.pbuf_alloc layer length type ms = some (u, o)) : u.Totals := by
  cases ms with
  | nil =>
      have hsame : some (s, none) = some (u, o) := by
        cases type <;> exact halloc
      rw [Option.some.injEq, Prod.mk.injEq] at hsame
      exact hsame.1 ▸ htotals
  | cons p ms =>
      obtain ⟨hnew, hnodup⟩ := List.nodup_cons.mp hnodup
      rw [List.forall_mem_cons] at hfresh
      have hone : some (s.alloc p ⟨none, length, length, 1⟩, some p) = some (u, o) → u.Totals := by
        intro h
        rw [Option.some.injEq, Prod.mk.injEq] at h
        exact h.1 ▸ htotals.alloc hc hfresh.1 hlength
      cases type with
      | PBUF_RAM => exact hone halloc
      | PBUF_ROM => exact hone halloc
      | PBUF_REF => exact hone halloc
      | PBUF_POOL =>
          rw [Pbufs.pbuf_alloc] at halloc
          generalize hlen : min length (PBUF_POOL_BUFSIZE_ALIGNED -
            LWIP_MEM_ALIGN_SIZE layer.offset) = len at halloc
          have hself : (s.alloc p ⟨none, length, len, 1⟩).pbuf p = ⟨none, length, len, 1⟩ :=
            pbuf_alloc_self _
          have hother : ∀ x ∈ (s.alloc p ⟨none, length, len, 1⟩).live, x ≠ p →
              (s.alloc p ⟨none, length, len, 1⟩).Total x := fun x hx hne =>
            total_alloc hc htotals hfresh.1 x ((List.mem_cons.mp hx).resolve_left hne)
          have hpending : (s.alloc p ⟨none, length, len, 1⟩).Pending p (length - len) := by
            refine ⟨List.mem_cons_self, congrArg Pbuf.next hself, hother, ?_, ?_⟩
            · rw [hself]
              dsimp only
              omega
            · rw [hself]
              exact hlength
          refine totals_tailLoop (hc.alloc hfresh.1 rfl rfl) hc.alive
            (fun x hx => List.mem_cons_of_mem p hx) (fun x hx y hy => ?_) hfresh.1 hpending hnodup
            (fun x hx => ?_) halloc
          · rw [next_alloc, Function.update_of_ne (ne_of_mem_of_not_mem hx hfresh.1)] at hy
            exact hc.closed x hx y hy
          · rintro (_ | ⟨_, hin⟩)
            · exact hnew hx
            · exact hfresh.2 x hx hin

/-! ## `pbuf_cat` and `pbuf_dechain` -/

/-- The pbufs from `p` to the end of its chain. -/
def chain (s : Pbufs) (p : Nat) : List Nat := chainOf s.next s.live.length p

/-- Who points into the chain of `p` is on it. -/
def Unshared (s : Pbufs) (p : Nat) : Prop :=
  ∀ x ∈ s.live, ∀ y ∈ s.next x, y ∈ s.chain p → x ∈ s.chain p

/-- What `pbuf_cat` does to the lengths. -/
theorem tot_len_catLoop {rank : Nat → Nat} {n : Nat} (hclosed : Closed s.live s.next)
    (hrank : Ranked rank s.live s.next) (hp : p ∈ s.live) (ht : t ∉ chainOf s.next n p)
    (hloop : catLoop t n p s = some u) :
    ∀ x, (u.pbuf x).len = (s.pbuf x).len ∧
      (u.pbuf x).tot_len = if x ∈ chainOf s.next n p then
        ((s.pbuf x).tot_len + (s.pbuf t).tot_len) % 65536 else (s.pbuf x).tot_len := by
  induction n generalizing p s with
  | zero => cases hloop
  | succ n ih =>
      rw [catLoop, Option.bind_eq_some_iff] at hloop
      obtain ⟨tail, htail, hloop⟩ := hloop
      rw [read, Option.ite_none_right_eq_some, Option.some.injEq] at htail
      obtain ⟨-, rfl⟩ := htail
      rw [modify_of_mem hp, Option.bind_some] at hloop
      have hpt : t ≠ p := by
        rintro rfl
        exact ht List.mem_cons_self
      have hnext : (s.set p { s.pbuf p with
          tot_len := ((s.pbuf p).tot_len + (s.pbuf t).tot_len) % 65536 }).next = s.next :=
        next_set_of_eq rfl
      have hself : (s.set p { s.pbuf p with
          tot_len := ((s.pbuf p).tot_len + (s.pbuf t).tot_len) % 65536 }).pbuf p = { s.pbuf p with
          tot_len := ((s.pbuf p).tot_len + (s.pbuf t).tot_len) % 65536 } := pbuf_set_self _
      have hother : ∀ x, x ≠ p → (s.set p { s.pbuf p with
          tot_len := ((s.pbuf p).tot_len + (s.pbuf t).tot_len) % 65536 }).pbuf x = s.pbuf x :=
        fun x hx => pbuf_set_of_ne hx _
      have hlive : (s.set p { s.pbuf p with
          tot_len := ((s.pbuf p).tot_len + (s.pbuf t).tot_len) % 65536 }).live = s.live := rfl
      generalize s.set p { s.pbuf p with
        tot_len := ((s.pbuf p).tot_len + (s.pbuf t).tot_len) % 65536 } = v at *
      have heq : (v.pbuf p).next = s.next p := congrFun hnext p
      rw [heq] at hloop
      cases hcase : s.next p with
      | none =>
          rw [hcase] at hloop
          dsimp only at hloop
          obtain ⟨-, rfl⟩ := modify_eq_some.mp hloop
          intro x
          rw [chainOf_of_next_none n hcase]
          rcases eq_or_ne x p with rfl | hne
          · rw [pbuf_set_self, if_pos List.mem_cons_self, hself]
            exact ⟨rfl, rfl⟩
          · rw [pbuf_set_of_ne hne, if_neg fun h => hne (List.mem_singleton.mp h), hother x hne]
            exact ⟨rfl, rfl⟩
      | some q =>
          rw [hcase] at hloop
          have hq := hclosed p hp q hcase
          have hlt := hrank p hp q hcase
          rw [chainOf_of_next n hcase, List.mem_cons, not_or] at ht
          have hpq : p ∉ chainOf s.next n q := fun hin => by
            have hle := rank_le_of_mem_chainOf hclosed hrank hq hin
            omega
          have hrec := ih (s := v) (p := q) (by rw [hlive, hnext]; exact hclosed)
            (by rw [hlive, hnext]; exact hrank) (hlive ▸ hq) (by rw [hnext]; exact ht.2) hloop
          intro x
          obtain ⟨hlen, htot⟩ := hrec x
          rw [hnext, hother t hpt] at htot
          rw [chainOf_of_next n hcase, hlen, htot]
          rcases eq_or_ne x p with rfl | hne
          · rw [if_neg hpq, if_pos List.mem_cons_self, hself]
            exact ⟨rfl, rfl⟩
          · rw [hother x hne]
            refine ⟨rfl, ?_⟩
            rw [if_congr (List.mem_cons.trans (or_iff_right hne)).symm rfl rfl]

/-- `pbuf_cat` adds the length of the tail to every pbuf of the head. -/
theorem Totals.pbuf_cat (hc : s.Counted held) (htotals : s.Totals) (hh : h ∈ s.live)
    (ht : t ∈ s.live) (hne : s.last h ≠ s.last t) (hun : s.Unshared h)
    (hcat : s.pbuf_cat h t = some u) : u.Totals := by
  obtain ⟨v, hv, hlive, hnext, -⟩ := hc.exists_cat hh ht
  obtain rfl : u = v := Option.some.inj (hcat.symm.trans hv)
  obtain ⟨rank, hrank, hlt⟩ := hc.acyclic.exists_bounded hc.closed
  obtain ⟨hlast, hends⟩ := hc.acyclic.endsIn_lastOf hc.closed hh
  have hends' := (hc.acyclic.endsIn_lastOf hc.closed ht).2
  have hout : t ∉ s.chain h := fun hin => hne ((hends.of_mem hin).unique hends')
  have hdata := tot_len_catLoop hc.closed hrank hh hout hcat
  have hlin : s.last h ∈ s.chain h := lastOf_mem_chainOf hc.closed hrank hh (hlt h hh)
  intro x hx
  rw [hlive] at hx
  obtain ⟨hlen, htot⟩ := hdata x
  obtain ⟨hold, hlt'⟩ := htotals x hx
  rcases eq_or_ne x (s.last h) with heq | hxne
  · have hxnext : u.next x = some t := by rw [hnext, heq, Function.update_self]
    have hxold : s.next x = none := heq ▸ hlast
    have htail : (u.pbuf t).tot_len = (s.pbuf t).tot_len := (hdata t).2.trans (if_neg hout)
    have hin : x ∈ chainOf s.next s.live.length h := heq ▸ hlin
    rw [rest_of_next_none hxold] at hold
    rw [if_pos hin] at htot
    rw [Total, rest_of_next hxnext, hlen, htot, htail]
    omega
  · have hxnext : u.next x = s.next x := by rw [hnext, Function.update_of_ne hxne]
    by_cases hin : x ∈ chainOf s.next s.live.length h
    · cases hcase : s.next x with
      | none => exact absurd ((endsIn_of_next_none hcase).mp (hends.of_mem hin)) hxne
      | some y =>
          have hy := next_mem_chainOf hc.closed hrank hh (hlt h hh) hin hcase
          have hytot := (hdata y).2
          rw [if_pos hy] at hytot
          rw [rest_of_next hcase] at hold
          rw [if_pos hin] at htot
          rw [Total, rest_of_next (hxnext.trans hcase), hlen, htot, hytot]
          omega
    · have hrest : u.rest x = s.rest x := rest_congr hxnext fun y hy =>
        (hdata y).2.trans (if_neg fun hyin => hin (hun x hx y hy hyin))
      rw [if_neg hin] at htot
      rw [Total, hrest, hlen, htot]
      exact ⟨hold, hlt'⟩

/-- A reference more or less is no matter of lengths. -/
theorem Totals.pbuf_ref (htotals : s.Totals) (href : s.pbuf_ref p = some u) : u.Totals := by
  obtain ⟨-, rfl⟩ := modify_eq_some.mp href
  exact htotals.of_data (sameData_set rfl) fun _ => id

theorem Totals.pbuf_free {k : Nat} (htotals : s.Totals) (hfree : s.pbuf_free p = some (u, k)) :
    u.Totals := by
  obtain ⟨hdata, hsub⟩ := sameData_free hfree
  exact htotals.of_data hdata hsub

/-- `pbuf_dechain` leaves the head with its own length. -/
theorem Totals.pbuf_dechain {o : Option Nat} (hc : s.Counted held) (htotals : s.Totals)
    (hp : p ∈ s.live) (hhead : inLinks s.live s.next p = 0)
    (hdechain : s.pbuf_dechain p = some (u, o)) : u.Totals := by
  rw [Pbufs.pbuf_dechain, read_of_mem hp, Option.bind_some] at hdechain
  cases hcase : (s.pbuf p).next with
  | none =>
      rw [hcase, Option.some.injEq, Prod.mk.injEq] at hdechain
      exact hdechain.1 ▸ htotals
  | some q =>
      have hq := hc.closed p hp q hcase
      obtain ⟨hold, hlen⟩ := htotals p hp
      have hqtot := (htotals q hq).1
      rw [rest_of_next hcase] at hold
      have hrest : ((s.pbuf p).tot_len + 65536 - (s.pbuf p).len) % 65536 = (s.pbuf q).tot_len := by
        omega
      rw [hcase] at hdechain
      dsimp only at hdechain
      rw [hrest, modify_of_mem hq, Option.bind_some] at hdechain
      have hdata : SameData s (s.set q { s.pbuf q with tot_len := (s.pbuf q).tot_len }) :=
        sameData_set rfl
      have hlive : (s.set q { s.pbuf q with tot_len := (s.pbuf q).tot_len }).live = s.live := rfl
      have htotals' := htotals.of_data hdata fun _ => id
      generalize s.set q { s.pbuf q with tot_len := (s.pbuf q).tot_len } = v at *
      rw [modify_of_mem (hlive ▸ hp), Option.bind_some, Option.map_eq_some_iff] at hdechain
      obtain ⟨⟨w, k⟩, hfree, heq⟩ := hdechain
      obtain ⟨rfl, -⟩ := Prod.mk.inj heq
      refine Totals.pbuf_free (fun x hx => ?_) hfree
      have hx' : x ∈ v.live := hx
      obtain ⟨hxold, hxlen⟩ := htotals' x hx'
      rcases eq_or_ne x p with rfl | hne
      · have hnone : (v.set x { v.pbuf x with next := none, tot_len := (v.pbuf x).len }).next x =
            none := by
          rw [next_set, Function.update_self]
        rw [Total, rest_of_next_none hnone, pbuf_set_self]
        dsimp only
        omega
      · -- nobody else points to the first one
        have hkept : ∀ y ∈ v.next x, y ≠ p := by
          rintro y hy rfl
          have hpos := inLinks_pos (hlive ▸ hx') (hdata.next_eq x ▸ hy)
          omega
        have hrest : (v.set p { v.pbuf p with next := none, tot_len := (v.pbuf p).len }).rest x =
            v.rest x := by
          refine rest_congr ?_ fun y hy => ?_
          · rw [next_set, Function.update_of_ne hne]
          · rw [pbuf_set_of_ne (hkept y hy)]
        rw [Total, hrest, pbuf_set_of_ne hne]
        exact ⟨hxold, hxlen⟩

end Pbufs

namespace Owners

variable {s s' : Owners} {evs : List PbufEvent} {memory : Nat → Pbuf}

/-- Lengths are those of a `u16_t`, and chains that are joined or cut are not entered from
elsewhere. -/
def Plain (s : Owners) : PbufEvent → Prop
  | .pbuf_alloc _ length _ _ => length < 65536
  | .pbuf_cat h _ => s.pbufs.Unshared h
  | .pbuf_chain h _ => s.pbufs.Unshared h
  | .pbuf_dechain p => inLinks s.pbufs.live s.pbufs.next p = 0
  | _ => True

instance (s : Pbufs) (p : Nat) : Decidable (s.Unshared p) :=
  inferInstanceAs (Decidable (∀ x ∈ s.live, ∀ y ∈ s.next x, y ∈ s.chain p → x ∈ s.chain p))

instance (s : Owners) : (ev : PbufEvent) → Decidable (s.Plain ev)
  | .pbuf_alloc _ _ _ _ => inferInstanceAs (Decidable (_ < _))
  | .pbuf_ref _ => .isTrue trivial
  | .pbuf_free _ => .isTrue trivial
  | .pbuf_cat h _ => inferInstanceAs (Decidable (s.pbufs.Unshared h))
  | .pbuf_chain h _ => inferInstanceAs (Decidable (s.pbufs.Unshared h))
  | .pbuf_dechain _ => inferInstanceAs (Decidable (_ = _))

/-- **One call** keeps the lengths of chains that are entered at their heads only. -/
theorem totals_step {ev : PbufEvent} (hinv : s.Inv) (htotals : s.pbufs.Totals)
    (hplain : s.Plain ev) (hstep : s.step ev = some s') : s'.pbufs.Totals := by
  rw [step, Option.ite_none_right_eq_some] at hstep
  obtain ⟨hallowed, hcall⟩ := hstep
  cases ev with
  | pbuf_alloc layer length type ms =>
      obtain ⟨⟨u, o⟩, hu, rfl⟩ := Option.map_eq_some_iff.mp hcall
      exact htotals.pbuf_alloc hinv hplain hallowed.1 hallowed.2 hu
  | pbuf_ref p =>
      obtain ⟨u, hu, rfl⟩ := Option.map_eq_some_iff.mp hcall
      exact htotals.pbuf_ref hu
  | pbuf_free p =>
      obtain ⟨⟨u, k⟩, hu, rfl⟩ := Option.map_eq_some_iff.mp hcall
      exact htotals.pbuf_free hu
  | pbuf_cat h t =>
      obtain ⟨u, hu, rfl⟩ := Option.map_eq_some_iff.mp hcall
      obtain ⟨hh, ht, hne⟩ := hallowed
      exact htotals.pbuf_cat hinv hh (hinv.alive t ht) hne hplain hu
  | pbuf_chain h t =>
      obtain ⟨u, hu, rfl⟩ := Option.map_eq_some_iff.mp hcall
      obtain ⟨hh, ht, hne⟩ := hallowed
      obtain ⟨v, hv, hu⟩ := Option.bind_eq_some_iff.mp hu
      exact (htotals.pbuf_cat hinv hh ht hne hplain hv).pbuf_ref hu
  | pbuf_dechain p =>
      obtain ⟨⟨u, o⟩, hu, rfl⟩ := Option.map_eq_some_iff.mp hcall
      exact htotals.pbuf_dechain hinv hallowed hplain hu

/-- **The invariant of the lengths.**  In every run of such calls, `tot_len` of a pbuf is its `len`
and the `tot_len` of the next, if there is one. -/
theorem run_tot_len (hrun : RunBy step (fun s ev => s.Fits ev ∧ s.Plain ev) (boot memory) evs s) :
    ∀ p ∈ s.pbufs.live, (s.pbufs.pbuf p).tot_len =
      ((s.pbufs.pbuf p).len + s.pbufs.rest p) % 65536 := by
  have hkeep := hrun.invariant (I := fun s => s.Inv ∧ s.pbufs.Totals)
    (fun s ev s' ⟨hinv, htotals⟩ ⟨hfits, hplain⟩ hstep =>
      ⟨inv_step hinv hfits hstep, totals_step hinv htotals hplain hstep⟩)
    ⟨inv_boot memory, nofun⟩
  exact fun p hp => (hkeep.2 p hp).1

theorem run_tot_len_three :
    ((behind three).pbufs.pbuf 3).tot_len =
      (((behind three).pbufs.pbuf 3).len + (behind three).pbufs.rest 3) % 65536 :=
  run_tot_len ⟨(run_behind (by decide +kernel) (by decide +kernel)).run, by decide +kernel⟩ 3
    (by decide +kernel)

example : (behind three).pbufs.pbuf 3 = ⟨some 1, 620, 20, 1⟩ := by decide +kernel

end Owners

end NetCamera.Lwip
