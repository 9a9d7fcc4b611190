import NetCamera.Protocol.Elements

/-!
# NetCamera.Protocol.ScanTrace

`Scan_Params` with a record of what it touches.

`scanLog` is `Scan_Params` again, returning beside the result the list of its
accesses: which bytes the string functions read, through which pointer a NUL is
written, which slot of the array is filled and in which pass.  `scanLog_snd` says
that the result is that of `Scan_Params`.

All reads and writes stay inside the text as long as every NUL is written through
a pointer that is not null (`scan_safe_iff`), and the slots are filled in order
from the first one on.
-/

namespace NetCamera

open CString

/-! ## Accesses -/

/-- An access of `Scan_Params`: a string function reads the bytes from `first` to
`last`, `*pEnd='\0'` is executed (`none` is the null pointer), or `pArray[slot]` is
assigned in pass `i` of the loop. -/
inductive Access where
  | read (first last : Nat)
  | cut (pEnd : Option Nat)
  | store (slot i : Nat)
  deriving DecidableEq, Repr

/-- What `strchr(mem + pos, c)` reads: up to the byte it finds or the terminator. -/
def readTo (mem : List UInt8) (pos : Nat) (c : UInt8) : Access :=
  .read pos ((strchr mem pos c).getD (pos + strlen mem pos))

/-- What `strlen(mem + pos)` reads, and at most what `atoi(mem + pos)` reads. -/
def readStr (mem : List UInt8) (pos : Nat) : Access := .read pos (pos + strlen mem pos)

section log

variable {m : Nat} {β : Type}

/-- Accesses in front of those of the rest. -/
def logged (as : List Access) (r : List Access × β) : List Access × β := (as ++ r.1, r.2)

@[simp] theorem logged_fst (as : List Access) (r : List Access × β) :
    (logged as r).1 = as ++ r.1 := rfl

@[simp] theorem logged_snd (as : List Access) (r : List Access × β) :
    (logged as r).2 = r.2 := rfl

/-- The loop of `Scan_Params` with its accesses; `i` is the number of the pass. -/
def scanElemsLog (iMaxArrayLen : Nat) : Nat → Nat → List UInt8 → Nat → Nat → Buf Int m →
    List Access × Option (Nat × Buf Int m)
  | 0, _, _, _, _, pArray => ([], some (0, pArray))
  | n + 1, i, mem, pStart, iRtnCount, pArray =>
    logged [readTo mem (pStart + 1) (chr ',')] <|
    match strchr mem (pStart + 1) (chr ',') with
    | some pEnd =>
      let mem := mem.set pEnd 0
      logged [.cut (some pEnd), readStr mem (pStart + 1)] <|
      if strlen mem (pStart + 1) < 10 then
        let pArray := pArray.write iRtnCount [atoi mem (pStart + 1)]
        logged [readStr mem (pStart + 1), .store iRtnCount i] <|
        if iRtnCount + 1 ≥ iMaxArrayLen then ([], some (iRtnCount + 1, pArray))
        else scanElemsLog iMaxArrayLen n (i + 1) mem pEnd (iRtnCount + 1) pArray
      else scanElemsLog iMaxArrayLen n (i + 1) mem pEnd iRtnCount pArray
    | none =>
      logged [readTo mem (pStart + 1) (chr ']')] <|
      match strchr mem (pStart + 1) (chr ']') with
      | some pEnd =>
        let mem := mem.set pEnd 0
        logged [.cut (some pEnd), readStr mem (pStart + 1)] <|
        if strlen mem (pStart + 1) < 10 then
          ([readStr mem (pStart + 1), .store iRtnCount i],
            some (iRtnCount + 1, pArray.write iRtnCount [atoi mem (pStart + 1)]))
        else ([], some (iRtnCount, pArray))
      | none => ([.cut none], none)

/-- `Scan_Params` with its accesses. -/
def scanLog (mem : List UInt8) (pArray : Buf Int m) (iMaxArrayLen : Nat) :
    List Access × Option (UInt8 × Buf Int m) :=
  logged [readTo mem 0 (chr '[')] <|
  match strchr mem 0 (chr '[') with
  | none =>
    logged [readTo mem 0 (chr ',')] <|
    let cut := match strchr mem 0 (chr ',') with
      | some pEnd => (mem.set pEnd 0, [Access.cut (some pEnd)])
      | none => (mem, [])
    let mem := cut.1
    logged (cut.2 ++ [readStr mem 0]) <|
    if strlen mem 0 < 10 then
      ([readStr mem 0, .store 0 0], some (1, pArray.write 0 [atoi mem 0]))
    else ([], some (0, pArray))
  | some pStart =>
    let r := scanElemsLog iMaxArrayLen iMaxArrayLen 0 mem pStart 0 pArray
    (r.1, r.2.map fun r => (UInt8.ofNat r.1, r.2))

theorem scanElemsLog_snd (iMaxArrayLen n i : Nat) (mem : List UInt8) (pStart iRtnCount : Nat)
    (pArray : Buf Int m) :
    (scanElemsLog iMaxArrayLen n i mem pStart iRtnCount pArray).2 =
      scanElems iMaxArrayLen n mem pStart iRtnCount pArray := by
  induction n generalizing i mem pStart iRtnCount pArray with
  | zero => rfl
  | succ n ih =>
      rw [scanElemsLog, scanElems, logged_snd]
      cases strchr mem (pStart + 1) (chr ',') with
      | some pEnd => grind [logged]
      | none =>
          cases strchr mem (pStart + 1) (chr ']') with
          | some pEnd => grind [logged]
          | none => rfl

/-- **The record does not change the result.** -/
theorem scanLog_snd (mem : List UInt8) (pArray : Buf Int m) (iMaxArrayLen : Nat) :
    (scanLog mem pArray iMaxArrayLen).2 = Scan_Params mem pArray iMaxArrayLen := by
  rw [scanLog, Scan_Params, logged_snd]
  cases strchr mem 0 (chr '[') with
  | some pStart => simp only [scanElemsLog_snd]
  | none =>
      cases strchr mem 0 (chr ',') with
      | some pEnd => grind [logged]
      | none => grind [logged]

/-! ## Where it reads and writes -/

/-- The access stays in a string with its terminator at `stop`, and writes inside
the string. -/
def Access.Within (stop : Nat) : Access → Prop
  | .read first last => first ≤ last ∧ last ≤ stop
  | .cut (some pEnd) => pEnd < stop
  | .cut none => False
  | .store _ _ => True

/-- The slots of `pArray` that are assigned, with the pass each is assigned in. -/
def stores (as : List Access) : List (Nat × Nat) :=
  as.filterMap fun
    | .store slot i => some (slot, i)
    | _ => none

/-- A cut at what `strchr` finds splits the string there. -/
theorem strchr_split {mem : List UInt8} {pos p : Nat} {c : UInt8} (hc : c ≠ 0)
    (h : strchr mem pos c = some p) :
    c ∈ cstr mem pos ∧ p = pos + (upto c (cstr mem pos)).length ∧
      cstr (mem.set p 0) pos = upto c (cstr mem pos) ∧
      cstr (mem.set p 0) (p + 1) = behind c (cstr mem pos) := by
  by_cases hmem : c ∈ cstr mem pos
  · rw [strchr_of_mem hmem, Option.some.injEq] at h
    subst h
    exact ⟨hmem, rfl, cstr_cut_self hmem, cstr_cut_behind hmem⟩
  · rw [strchr_of_not_mem hc hmem] at h
    cases h

theorem not_mem_of_strchr_none {mem : List UInt8} {pos : Nat} {c : UInt8}
    (h : strchr mem pos c = none) : c ∉ cstr mem pos := by
  intro hmem
  rw [strchr_of_mem hmem] at h
  cases h

/-- What `strchr` finds lies in the string, and so do the strings before it and behind it. -/
theorem strchr_cut {mem : List UInt8} {pos p : Nat} {c : UInt8} (hc : c ≠ 0)
    (h : strchr mem pos c = some p) :
    pos ≤ p ∧ p < pos + strlen mem pos ∧ pos + strlen (mem.set p 0) pos = p ∧
      p + 1 + strlen (mem.set p 0) (p + 1) = pos + strlen mem pos := by
  obtain ⟨hmem, hp, hself, hbehind⟩ := strchr_split hc h
  have hlen := length_behind hmem
  simp only [strlen, hself, hbehind]
  omega

theorem readTo_within (mem : List UInt8) (pos : Nat) {c : UInt8} (hc : c ≠ 0) :
    (readTo mem pos c).Within (pos + strlen mem pos) := by
  unfold readTo
  cases h : strchr mem pos c with
  | none => exact ⟨Nat.le_add_right _ _, Nat.le_refl _⟩
  | some p =>
      obtain ⟨hle, hlt, -⟩ := strchr_cut hc h
      exact ⟨hle, Nat.le_of_lt hlt⟩

/-- A cut at what `strchr` finds, and the string in front of it. -/
theorem cut_within {mem : List UInt8} {pos p : Nat} {c : UInt8} (hc : c ≠ 0)
    (h : strchr mem pos c = some p) :
    (Access.cut (some p)).Within (pos + strlen mem pos) ∧
      (readStr (mem.set p 0) pos).Within (pos + strlen mem pos) := by
  obtain ⟨hle, hlt, hself, -⟩ := strchr_cut hc h
  exact ⟨hlt, Nat.le_add_right _ _, by omega⟩

theorem chr_comma_ne : chr ',' ≠ 0 := by decide

theorem chr_close_ne : chr ']' ≠ 0 := by decide

theorem chr_open_ne : chr '[' ≠ 0 := by decide

/-- The loop stays within the text exactly when it returns: only the null pointer leaves it. -/
theorem scanElemsLog_within {iMaxArrayLen n i : Nat} {mem : List UInt8}
    {pStart iRtnCount stop : Nat} {pArray : Buf Int m}
    (hstop : pStart + 1 + strlen mem (pStart + 1) = stop) :
    (∀ a ∈ (scanElemsLog iMaxArrayLen n i mem pStart iRtnCount pArray).1, a.Within stop) ↔
      (scanElemsLog iMaxArrayLen n i mem pStart iRtnCount pArray).2.isSome = true := by
  induction n generalizing i mem pStart iRtnCount pArray with
  | zero => simp [scanElemsLog]
  | succ n ih =>
      have hcomma := readTo_within mem (pStart + 1) chr_comma_ne
      have hclose := readTo_within mem (pStart + 1) chr_close_ne
      rw [hstop] at hcomma hclose
      rw [scanElemsLog]
      cases hfind : strchr mem (pStart + 1) (chr ',') with
      | some pEnd =>
          obtain ⟨-, -, -, hrest⟩ := strchr_cut chr_comma_ne hfind
          obtain ⟨hcut, hread⟩ := cut_within chr_comma_ne hfind
          rw [hstop] at hrest hcut hread
          have hstore : (Access.store iRtnCount i).Within stop := trivial
          by_cases hshort : strlen (mem.set pEnd 0) (pStart + 1) < 10
          · by_cases hfull : iRtnCount + 1 ≥ iMaxArrayLen
            · simp [hshort, hfull, hcomma, hread, hcut, hstore]
            · simp [hshort, hfull, hcomma, hread, hcut, hstore, ih hrest]
          · simp [hshort, hcomma, hread, hcut, ih hrest]
      | none =>
          cases hend : strchr mem (pStart + 1) (chr ']') with
          | some pEnd =>
              obtain ⟨hcut, hread⟩ := cut_within chr_close_ne hend
              rw [hstop] at hcut hread
              have hstore : (Access.store iRtnCount i).Within stop := trivial
              by_cases hshort : strlen (mem.set pEnd 0) (pStart + 1) < 10
              · simp [hshort, hcomma, hclose, hread, hcut, hstore]
              · simp [hshort, hcomma, hclose, hread, hcut]
          | none =>
              have hnull : ¬ (Access.cut none).Within stop := fun h => h
              simp [hcomma, hclose, hnull]

/-! ## What it stores -/

/-- The stores for the elements `es`, the first of which is looked at in pass `i`. -/
def storesFrom (slot i : Nat) : List (List UInt8) → List (Nat × Nat)
  | [] => []
  | e :: es =>
    if Short e then (slot, i) :: storesFrom (slot + 1) (i + 1) es else storesFrom slot (i + 1) es

@[simp] theorem stores_nil : stores [] = [] := rfl

@[simp] theorem stores_append (as bs : List Access) :
    stores (as ++ bs) = stores as ++ stores bs := List.filterMap_append

@[simp] theorem stores_read (first last : Nat) (as : List Access) :
    stores (.read first last :: as) = stores as := rfl

@[simp] theorem stores_readTo (mem : List UInt8) (pos : Nat) (c : UInt8) (as : List Access) :
    stores (readTo mem pos c :: as) = stores as := rfl

@[simp] theorem stores_readStr (mem : List UInt8) (pos : Nat) (as : List Access) :
    stores (readStr mem pos :: as) = stores as := rfl

@[simp] theorem stores_cut (pEnd : Option Nat) (as : List Access) :
    stores (.cut pEnd :: as) = stores as := rfl

@[simp] theorem stores_store (slot i : Nat) (as : List Access) :
    stores (.store slot i :: as) = (slot, i) :: stores as := rfl

/-- **What a call stores**, if it returns: the short elements it looks at. -/
theorem scanElemsLog_stores {iMaxArrayLen n i : Nat} {mem : List UInt8} {pStart iRtnCount : Nat}
    {pArray : Buf Int m} (h : iRtnCount + n ≤ iMaxArrayLen)
    (hret : (scanElemsLog iMaxArrayLen n i mem pStart iRtnCount pArray).2.isSome = true) :
    stores (scanElemsLog iMaxArrayLen n i mem pStart iRtnCount pArray).1 =
      storesFrom iRtnCount i ((elements (cstr mem (pStart + 1))).take n) := by
  induction n generalizing i mem pStart iRtnCount pArray with
  | zero => rfl
  | succ n ih =>
      rw [scanElemsLog] at hret ⊢
      cases hfind : strchr mem (pStart + 1) (chr ',') with
      | some pEnd =>
          obtain ⟨hmem, -, hself, hbehind⟩ := strchr_split chr_comma_ne hfind
          rw [elements_of_mem hmem, List.take_succ_cons, storesFrom]
          simp only [hfind, strlen, hself, logged_snd, logged_fst] at hret ⊢
          by_cases hshort : (upto (chr ',') (cstr mem (pStart + 1))).length < 10
          · have hs : Short (upto (chr ',') (cstr mem (pStart + 1))) := hshort
            by_cases hfull : iRtnCount + 1 ≥ iMaxArrayLen
            · have hn : n = 0 := by omega
              simp [hshort, hs, hfull, hn, storesFrom]
            · simp only [hshort, hfull, if_true, if_false, logged_snd] at hret
              simp [hshort, hs, hfull, ih (by omega) hret, hbehind]
          · have hs : ¬ Short (upto (chr ',') (cstr mem (pStart + 1))) := hshort
            simp only [hshort, if_false] at hret
            simp [hshort, hs, ih (by omega) hret, hbehind]
      | none =>
          rw [elements_of_not_mem (not_mem_of_strchr_none hfind), List.take_succ_cons,
            List.take_nil, storesFrom, storesFrom, storesFrom]
          simp only [hfind, logged_snd, logged_fst] at hret ⊢
          cases hend : strchr mem (pStart + 1) (chr ']') with
          | some pEnd =>
              obtain ⟨-, -, hself, -⟩ := strchr_split chr_close_ne hend
              simp only [strlen, hself]
              by_cases hshort : (upto (chr ']') (cstr mem (pStart + 1))).length < 10
              · have hs : Short (upto (chr ']') (cstr mem (pStart + 1))) := hshort
                simp [hshort, hs]
              · have hs : ¬ Short (upto (chr ']') (cstr mem (pStart + 1))) := hshort
                simp [hshort, hs]
          | none => simp [hend] at hret

theorem length_storesFrom (slot i : Nat) (es : List (List UInt8)) :
    (storesFrom slot i es).length = (shorts es).length := by
  induction es generalizing slot i with
  | nil => rfl
  | cons e es ih => grind [storesFrom, shorts]

/-- The slots are filled in order. -/
theorem map_fst_storesFrom (slot i : Nat) (es : List (List UInt8)) :
    (storesFrom slot i es).map Prod.fst = List.range' slot (shorts es).length := by
  induction es generalizing slot i with
  | nil => rfl
  | cons e es ih =>
      by_cases hshort : Short e
      · rw [storesFrom, if_pos hshort, shorts, List.filter_cons_of_pos (by simpa using hshort),
          List.map_cons, ih, List.length_cons, List.range'_succ, shorts]
      · rw [storesFrom, if_neg hshort, shorts, List.filter_cons_of_neg (by simpa using hshort), ih,
          shorts]

/-! ## A whole call -/

/-- Behind the opening bracket the text goes on as it was. -/
theorem strchr_open {mem : List UInt8} {pStart : Nat} (h : strchr mem 0 (chr '[') = some pStart) :
    pStart + 1 + strlen mem (pStart + 1) = strlen mem 0 ∧ chr '[' ∈ cstr mem 0 ∧
      cstr mem (pStart + 1) = behind (chr '[') (cstr mem 0) := by
  obtain ⟨hmem, hp, -, -⟩ := strchr_split chr_open_ne h
  have hlen := length_behind hmem
  have hdrop : cstr mem (pStart + 1) = behind (chr '[') (cstr mem 0) := by
    rw [hp, Nat.add_assoc, cstr_drop (by unfold strlen; omega), behind]
  refine ⟨?_, hmem, hdrop⟩
  unfold strlen
  rw [hdrop]
  omega

/-- A call stays within the text exactly when it returns. -/
theorem scanLog_within (mem : List UInt8) (pArray : Buf Int m) (iMaxArrayLen : Nat) :
    (∀ a ∈ (scanLog mem pArray iMaxArrayLen).1, a.Within (strlen mem 0)) ↔
      (scanLog mem pArray iMaxArrayLen).2.isSome = true := by
  have hopen := readTo_within mem 0 chr_open_ne
  have hcomma := readTo_within mem 0 chr_comma_ne
  rw [Nat.zero_add] at hopen hcomma
  rw [scanLog]
  cases hfind : strchr mem 0 (chr '[') with
  | some pStart =>
      have hloop := @scanElemsLog_within m iMaxArrayLen iMaxArrayLen 0 mem pStart 0 _ pArray
        (strchr_open hfind).1
      simp [hopen, hloop]
  | none =>
      have hstore : (Access.store 0 0).Within (strlen mem 0) := trivial
      cases hcut : strchr mem 0 (chr ',') with
      | some pEnd =>
          obtain ⟨hwrite, hread⟩ := cut_within chr_comma_ne hcut
          rw [Nat.zero_add] at hwrite hread
          by_cases hshort : strlen (mem.set pEnd 0) 0 < 10
          · simp [hshort, hopen, hcomma, hread, hwrite, hstore]
          · simp [hshort, hopen, hcomma, hread, hwrite]
      | none =>
          have hread : (readStr mem 0).Within (strlen mem 0) := ⟨by omega, by omega⟩
          by_cases hshort : strlen mem 0 < 10
          · simp [hshort, hopen, hcomma, hread, hstore]
          · simp [hshort, hopen, hcomma, hread]

/-- What a call stores, if it returns. -/
theorem scanLog_stores {mem : List UInt8} {pArray : Buf Int m} {iMaxArrayLen : Nat}
    (hret : (scanLog mem pArray iMaxArrayLen).2.isSome = true) :
    stores (scanLog mem pArray iMaxArrayLen).1 =
      storesFrom 0 0 (looked iMaxArrayLen (cstr mem 0)) := by
  rw [scanLog] at hret ⊢
  cases hfind : strchr mem 0 (chr '[') with
  | some pStart =>
      obtain ⟨-, hmem, hbehind⟩ := strchr_open hfind
      simp only [hfind, logged_snd, Option.isSome_map] at hret
      simp [looked, hmem, scanElemsLog_stores (by omega) hret, hbehind]
  | none =>
      have hlook : looked iMaxArrayLen (cstr mem 0) = [upto (chr ',') (cstr mem 0)] :=
        if_neg (not_mem_of_strchr_none hfind)
      rw [hlook]
      cases hcut : strchr mem 0 (chr ',') with
      | some pEnd =>
          obtain ⟨-, -, hself, -⟩ := strchr_split chr_comma_ne hcut
          by_cases hshort : Short (upto (chr ',') (cstr mem 0))
          · have hlt : strlen (mem.set pEnd 0) 0 < 10 := by rwa [strlen, hself]
            simp [storesFrom, hshort, hlt]
          · have hlt : ¬ strlen (mem.set pEnd 0) 0 < 10 := by rwa [strlen, hself]
            simp [storesFrom, hshort, hlt]
      | none =>
          rw [upto_of_not_mem (not_mem_of_strchr_none hcut)]
          by_cases hshort : Short (cstr mem 0)
          · have hlt : strlen mem 0 < 10 := hshort
            simp [storesFrom, hshort, hlt]
          · have hlt : ¬ strlen mem 0 < 10 := hshort
            simp [storesFrom, hshort, hlt]

/-- A call returns on every text that it does not run off. -/
theorem scanLog_isSome_iff (mem : List UInt8) (pArray : Buf Int m) (iMaxArrayLen : Nat) :
    (scanLog mem pArray iMaxArrayLen).2.isSome = true ↔ ¬ RunsOff iMaxArrayLen (cstr mem 0) := by
  rw [scanLog_snd, Scan_Params_eq, ← scanText_eq_none_iff pArray, ← Option.not_isSome_iff_eq_none,
    Decidable.not_not]

/-- The slots a call fills, all below the maximum. -/
theorem slots_lt {mem : List UInt8} {pArray : Buf Int m} {iMaxArrayLen : Nat}
    (hpos : 0 < iMaxArrayLen) (hret : (scanLog mem pArray iMaxArrayLen).2.isSome = true) :
    ∃ k ≤ iMaxArrayLen,
      (stores (scanLog mem pArray iMaxArrayLen).1).map Prod.fst = List.range k := by
  refine ⟨(shorts (looked iMaxArrayLen (cstr mem 0))).length, ?_, ?_⟩
  · exact Nat.le_trans (length_shorts_le _) (length_looked_le hpos _)
  · rw [scanLog_stores hret, map_fst_storesFrom, List.range_eq_range']

/-- Memory safety of a call: it reads up to the terminator and writes inside the
text, it fills the first slots, at most `iMaxArrayLen` of them, each once, and it
returns. -/
structure ScanSafe (mem : List UInt8) (pArray : Buf Int m) (iMaxArrayLen : Nat) : Prop where
  within : ∀ a ∈ (scanLog mem pArray iMaxArrayLen).1, a.Within (strlen mem 0)
  slots : ∃ k ≤ iMaxArrayLen,
    (stores (scanLog mem pArray iMaxArrayLen).1).map Prod.fst = List.range k
  returns : ∃ n values, Scan_Params mem pArray iMaxArrayLen = some (n, values)

/-- **A call is safe exactly on the texts it does not run off.** -/
theorem scan_safe_iff {s : List UInt8} (hs : 0 ∉ s) (rest : List UInt8) (pArray : Buf Int m)
    {iMaxArrayLen : Nat} (hpos : 0 < iMaxArrayLen) :
    ScanSafe (s ++ 0 :: rest) pArray iMaxArrayLen ↔ ¬ RunsOff iMaxArrayLen s := by
  have hwithin := scanLog_within (s ++ 0 :: rest) pArray iMaxArrayLen
  have hiff := scanLog_isSome_iff (s ++ 0 :: rest) pArray iMaxArrayLen
  rw [cstr_append_zero hs] at hiff
  rw [← hiff]
  refine ⟨fun h => hwithin.mp h.within, fun hret => ⟨hwithin.mpr hret, slots_lt hpos hret, ?_⟩⟩
  rw [scanLog_snd] at hret
  obtain ⟨r, hr⟩ := Option.isSome_iff_exists.mp hret
  exact ⟨r.1, r.2, hr⟩

/-- `[1,2]`. -/
theorem scan_safe_pair :
    ScanSafe (ascii ['[', '1', ',', '2', ']'] ++ 0 :: []) (Buf.fill 8 0) 8 :=
  (scan_safe_iff (by decide) [] _ (by decide)).mpr (by decide)

/-- `[1,2`, which no bracket closes: a NUL is written through the null pointer. -/
theorem scan_unclosed :
    ¬ ScanSafe (ascii ['[', '1', ',', '2'] ++ 0 :: []) (Buf.fill 8 0) 8 ∧
    Access.cut none ∈
      (scanLog (ascii ['[', '1', ',', '2'] ++ 0 :: []) (Buf.fill 8 0) 8).1 := by
  have hnull : Access.cut none ∈
      (scanLog (ascii ['[', '1', ',', '2'] ++ 0 :: []) (Buf.fill 8 0) 8).1 := by decide
  exact ⟨fun h => h.within _ hnull, hnull⟩

end log

end NetCamera
