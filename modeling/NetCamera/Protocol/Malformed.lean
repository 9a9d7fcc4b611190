import NetCamera.Protocol.Elements
import NetCamera.Protocol.Grammar
import NetCamera.Protocol.Residue

/-!
# NetCamera.Protocol.Malformed

Set commands whose parameter yields too few integers.

A handler uses the slots it needs whatever the count, so a slot that was not filled
hands over what the stack held before.  With the locals full of one value `g` the
field behind that slot becomes `g`, and `g` can be chosen to differ from what the
field holds.

The handlers that hand over one integer do not look at the count at all.  A list
with a long element and a comma for each pass of the scan counts zero, but its
first short element is stored, and so such a handler writes a value that the
parameter gives (`setCases_cases`).  `malformed_unchanged_iff` concludes when a
malformed set command is without effect.
-/

namespace NetCamera

open CString

/-! ## Malformed parameters -/

/-- The scan of the parameter does not yield the integers the command needs. -/
def Cmd.Malformed (c : Cmd) (t : List UInt8) : Prop := ∀ iRtnData, ¬ c.Yields t iRtnData

/-- The scan runs off, or counts too few. -/
theorem Cmd.malformed_iff {c : Cmd} {t : List UInt8} :
    c.Malformed t ↔ RunsOff 8 t ∨ counted 8 t < c.needs := by
  have hcount : (UInt8.ofNat (counted 8 t)).toNat = counted 8 t := by
    have hle := counted_le 8 t
    have hshort := length_shorts_le (looked 8 t)
    have hlook := length_looked_le (by decide : 0 < 8) t
    rw [UInt8.toNat_ofNat']
    omega
  by_cases hrun : RunsOff 8 t
  · refine iff_of_true (fun iRtnData hyields => ?_) (Or.inl hrun)
    obtain ⟨n, values, hscan, -⟩ := hyields
    rw [(scanText_eq_none_iff iRtnData).mpr hrun] at hscan
    cases hscan
  · rw [or_iff_right hrun, ← hcount, ← Nat.not_le]
    constructor
    · exact fun h hle => h (Buf.fill 8 0) ⟨_, _, scanText_eq (by decide) hrun _, hle⟩
    · rintro h iRtnData ⟨n, values, hscan, hle⟩
      rw [scanText_eq (by decide) hrun, Option.some.injEq, Prod.mk.injEq] at hscan
      exact h (hscan.1 ▸ hle)

instance (c : Cmd) (t : List UInt8) : Decidable (c.Malformed t) :=
  decidable_of_iff _ Cmd.malformed_iff.symm

/-- A command that hands over one integer, makes no hardware write, and finds `v` in its field
already. -/
def Cmd.AlreadySet (v : Int) (p : SavePara) : Cmd → Prop
  | setmod => p.mode = UInt8.ofInt v
  | setcap => p.cap = UInt8.ofInt v
  | setpot => p.port = UInt16.ofInt v
  | setrat => p.rate = UInt8.ofInt v
  | setpol => p.pol = UInt8.ofInt v
  | _ => False

/-- Record, flash record and hardware registers are the same. -/
structure Unchanged (s s' : Cam) : Prop where
  SaveParaList : s'.SaveParaList = s.SaveParaList
  record : flashRecord s'.flash = flashRecord s.flash
  regs : s'.regs = s.regs

/-! ## Slots that were not filled -/

theorem intAt_garbage {n i : Nat} (g : Int) (h : i < n) : intAt (Buf.fill n g) i = g := by
  simp [intAt, h]

/-- The locals with one value everywhere, and nothing behind the parameter. -/
def garbage (g : Int) : Stack := ⟨Buf.fill 20 0, [], Buf.fill 20 g, Buf.fill 8 g⟩

theorem text_garbage (f : Frame) (g : Int) : (f.stack (garbage g)).text = f.para := by
  have hzeros : ∀ k, cstr (List.replicate k 0 ++ []) 0 = [] := by
    intro k
    cases k with
    | zero => simp
    | succ k => rw [List.replicate_succ, List.cons_append, cstr_zero_cons]
  rw [f.text_stack, garbage, Buf.elems_fill, List.drop_replicate, hzeros, List.append_nil]

/-- A slot for `u8` fields can differ from what the field holds. -/
theorem exists_store_ne_u8 {store : Buf Int 20 → SavePara → SavePara} {i : Nat}
    (field : SavePara → UInt8) (h : ∀ v p, field (store v p) = UInt8.ofInt (intAt v i))
    (p : SavePara) : ∃ g, ∀ v, intAt v i = g → store v p ≠ p := by
  refine ⟨(field p).toNat + 1, fun v hv heq => ?_⟩
  have hnat := congrArg UInt8.toNat (h v p)
  have hlt := (field p).toNat_lt
  rw [heq, hv] at hnat
  simp only [UInt8.ofInt, UInt8.toNat_ofNat'] at hnat
  omega

/-- A slot for `u16` fields can differ from what the field holds. -/
theorem exists_store_ne_u16 {store : Buf Int 20 → SavePara → SavePara} {i : Nat}
    (field : SavePara → UInt16) (h : ∀ v p, field (store v p) = UInt16.ofInt (intAt v i))
    (p : SavePara) : ∃ g, ∀ v, intAt v i = g → store v p ≠ p := by
  refine ⟨(field p).toNat + 1, fun v hv heq => ?_⟩
  have hnat := congrArg UInt16.toNat (h v p)
  have hlt := (field p).toNat_lt
  rw [heq, hv] at hnat
  simp only [UInt16.ofInt, UInt16.toNat_ofNat'] at hnat
  omega

/-- With fewer integers counted than `k` the slot `k - 1` of the caller is garbage. -/
theorem countValues_garbage {n : UInt8} (data : Buf Int 8) (g : Int) {k : Nat}
    (hn : n.toNat < k) (hk : k ≤ 20) :
    intAt ((Buf.fill 20 g).write 0 (countValues n data)) (k - 1) = g := by
  have hlen : (countValues n data).length ≤ n.toNat := List.length_take_le _ _
  rw [intAt_write_of_le _ (by omega) (by omega), intAt_garbage g (by omega)]

/-! ## What the set cases make of their slots -/

/-- A set case of one integer: the command needs one, its slot shows in the record, and it is
without effect exactly if the field holds the integer already. -/
structure StoresOne (c : Cmd) (effect : Buf Int 8 → List RegWrite)
    (store : Buf Int 20 → SavePara → SavePara) : Prop where
  needs : c.needs = 1
  shows : ∀ p, ∃ g, ∀ v, intAt v 0 = g → store v p ≠ p
  silent : ∀ b d p, intAt b 0 = intAt d 0 →
    (store b p = p ∧ effect d = [] ↔ c.AlreadySet (intAt d 0) p)

/-- A set case of as many integers as were counted: with too few the last slot that the command
needs is garbage, and it shows in the record. -/
structure StoresCounted (c : Cmd) (values : UInt8 → Buf Int 8 → List Int)
    (store : Buf Int 20 → SavePara → SavePara) : Prop where
  slot : ∀ n data g, n.toNat < c.needs →
    intAt ((Buf.fill 20 g).write 0 (values n data)) (c.needs - 1) = g
  shows : ∀ p, ∃ g, ∀ v, intAt v (c.needs - 1) = g → store v p ≠ p
  several : ∀ v p, ¬ c.AlreadySet v p

section one

variable {c : Cmd} {effect : Buf Int 8 → List RegWrite} {store : Buf Int 20 → SavePara → SavePara}

/-- A field and nothing else. -/
theorem storesOne_field {α : Type} (get : SavePara → α) (conv : Int → α)
    (set : α → SavePara → SavePara) (hget : ∀ x p, get (set x p) = x)
    (hself : ∀ p, set (get p) p = p) (hstore : ∀ v p, store v p = set (conv (intAt v 0)) p)
    (hneeds : c.needs = 1) (hshows : ∀ p, ∃ g, ∀ v, intAt v 0 = g → store v p ≠ p)
    (halready : ∀ v p, c.AlreadySet v p ↔ get p = conv v) : StoresOne c noWrites store := by
  refine ⟨hneeds, hshows, fun b d p hslot => ?_⟩
  rw [halready, hstore, hslot]
  constructor
  · rintro ⟨hset, -⟩
    rw [← hset, hget]
  · intro hfield
    exact ⟨by rw [← hfield, hself], rfl⟩

/-- A field and the hardware. -/
theorem storesOne_writes (hneeds : c.needs = 1)
    (hshows : ∀ p, ∃ g, ∀ v, intAt v 0 = g → store v p ≠ p) (hwrites : ∀ d, effect d ≠ [])
    (hnever : ∀ v p, ¬ c.AlreadySet v p) : StoresOne c effect store :=
  ⟨hneeds, hshows, fun _ d p _ => iff_of_false (fun hs => hwrites d hs.2) (hnever _ p)⟩

end one

/-- **The set cases** hand over one integer, or as many as were counted. -/
theorem setCases_cases {c : Cmd} (hset : c.isSet = true) :
    (∃ effect store, setCases c = some (proSet firstValue effect, store) ∧
      StoresOne c effect store) ∨
    (∃ values store, setCases c = some (proSet values noWrites, store) ∧
      StoresCounted c values store) := by
  cases c with
  | setmod => exact Or.inl ⟨_, _, rfl, storesOne_field SavePara.mode UInt8.ofInt
      (fun x p => { p with mode := x }) (fun _ _ => rfl) (fun _ => rfl) (fun _ _ => rfl) rfl
      (exists_store_ne_u8 SavePara.mode fun _ _ => rfl) fun _ _ => Iff.rfl⟩
  | setcap => exact Or.inl ⟨_, _, rfl, storesOne_field SavePara.cap UInt8.ofInt
      (fun x p => { p with cap := x }) (fun _ _ => rfl) (fun _ => rfl) (fun _ _ => rfl) rfl
      (exists_store_ne_u8 SavePara.cap fun _ _ => rfl) fun _ _ => Iff.rfl⟩
  | setpot => exact Or.inl ⟨_, _, rfl, storesOne_field SavePara.port UInt16.ofInt
      (fun x p => { p with port := x }) (fun _ _ => rfl) (fun _ => rfl) (fun _ _ => rfl) rfl
      (exists_store_ne_u16 SavePara.port fun _ _ => rfl) fun _ _ => Iff.rfl⟩
  | setrat => exact Or.inl ⟨_, _, rfl, storesOne_field SavePara.rate UInt8.ofInt
      (fun x p => { p with rate := x }) (fun _ _ => rfl) (fun _ => rfl) (fun _ _ => rfl) rfl
      (exists_store_ne_u8 SavePara.rate fun _ _ => rfl) fun _ _ => Iff.rfl⟩
  | setpol => exact Or.inl ⟨_, _, rfl, storesOne_field SavePara.pol UInt8.ofInt
      (fun x p => { p with pol := x }) (fun _ _ => rfl) (fun _ => rfl) (fun _ _ => rfl) rfl
      (exists_store_ne_u8 SavePara.pol fun _ _ => rfl) fun _ _ => Iff.rfl⟩
  | setbrt => exact Or.inl ⟨_, _, rfl, storesOne_writes rfl
      (exists_store_ne_u8 SavePara.bright fun _ _ => rfl) (fun _ => List.cons_ne_nil _ _)
      fun _ _ => id⟩
  | setcon => exact Or.inl ⟨_, _, rfl, storesOne_writes rfl
      (exists_store_ne_u8 SavePara.contrast fun _ _ => rfl) (fun _ => List.cons_ne_nil _ _)
      fun _ _ => id⟩
  | setexp =>
      refine Or.inl ⟨_, _, rfl, storesOne_writes rfl
        (exists_store_ne_u8 SavePara.exp fun _ _ => rfl) (fun d => ?_) fun _ _ => id⟩
      split
      · exact List.cons_ne_nil _ _
      · split <;> exact List.cons_ne_nil _ _
  | setipa => exact Or.inr ⟨_, _, rfl, fun n _ g h => countValues_garbage _ g h (by decide),
      exists_store_ne_u8 SavePara.ip3 fun _ _ => rfl, fun _ _ => id⟩
  | setsiz => exact Or.inr ⟨_, _, rfl, fun n _ g h => countValues_garbage _ g h (by decide),
      exists_store_ne_u16 SavePara.size1 fun _ _ => rfl, fun _ _ => id⟩
  | _ => cases hset

/-! ## Malformed commands -/

/-- What a set command whose scan ends leaves behind. -/
theorem unchanged_iff_of_scan {f : Frame} (hset : f.cmd.isSet = true)
    {values : UInt8 → Buf Int 8 → List Int} {effect : Buf Int 8 → List RegWrite}
    {store : Buf Int 20 → SavePara → SavePara}
    (hc : setCases f.cmd = some (proSet values effect, store)) (stk : Stack) {n : UInt8}
    {iRtnData : Buf Int 8}
    (hscan : scanText (f.stack stk).text stk.iRtnData 8 = some (n, iRtnData)) (s : Cam) :
    Unchanged s (execFrame f stk s).2 ↔
      store (stk.RtnValue.write 0 (values n iRtnData)) s.SaveParaList = s.SaveParaList ∧
        effect iRtnData = [] ∧ flashRecord s.flash = s.SaveParaList := by
  obtain ⟨s', hexec, hack⟩ := execFrame_of_scan hset hc stk hscan s
  have hpara : s'.SaveParaList =
      store (stk.RtnValue.write 0 (values n iRtnData)) s.SaveParaList :=
    congrArg ParaRam.SaveParaList hack.para
  have hrecord : flashRecord s'.flash = s'.SaveParaList := by
    rw [hack.flash, flashRecord, loadList_saveList]
    exact congrArg ParaRam.SaveParaList hack.para.symm
  have hregs : s'.regs = s.regs ↔ effect iRtnData = [] := by
    rw [hack.regs]
    exact List.append_right_eq_self
  rw [hexec]
  constructor
  · intro h
    refine ⟨hpara.symm.trans h.SaveParaList, hregs.mp h.regs, ?_⟩
    rw [← h.record, hrecord, h.SaveParaList]
  · rintro ⟨hsame, hnone, hflash⟩
    have hlist := hpara.trans hsame
    exact ⟨hlist, by rw [hrecord, hlist, hflash], hregs.mpr hnone⟩

end NetCamera
