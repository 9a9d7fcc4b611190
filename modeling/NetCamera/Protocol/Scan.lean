import NetCamera.Lib.Buf
import NetCamera.Lib.CString

/-!
# NetCamera.Protocol.Scan

`Scan_Params`, the parser of a parameter: one number, or a bracketed list of
them.

The source works on the text in place: it cuts each element off by writing a NUL
over the comma or bracket behind it.  `Scan_Params` below does the same on a
memory.  `scanStr` is the recursion on the text after the bracket that this
amounts to (`scanElems_eq`), so the result depends on nothing but the string at
`para` (`Scan_Params_eq`).

An element list that ends without a bracket makes the source write through the
null pointer `strchr` returned; the result is then `none`
(`scanStr_eq_none_iff`).
-/

namespace NetCamera

open CString

/-! ## The parser -/

section parser

variable {m : Nat}

/-- The loop of `Scan_Params` over a bracketed list, with `n` passes left;
`pStart` points at the bracket or comma before the next element. -/
def scanElems (iMaxArrayLen : Nat) : Nat → List UInt8 → Nat → Nat → Buf Int m →
    Option (Nat × Buf Int m)
  | 0, _, _, _, pArray => some (0, pArray)
  | n + 1, mem, pStart, iRtnCount, pArray =>
    match strchr mem (pStart + 1) (chr ',') with
    | some pEnd =>
      let mem := mem.set pEnd 0
      if strlen mem (pStart + 1) < 10 then
        let pArray := pArray.write iRtnCount [atoi mem (pStart + 1)]
        if iRtnCount + 1 ≥ iMaxArrayLen then some (iRtnCount + 1, pArray)
        else scanElems iMaxArrayLen n mem pEnd (iRtnCount + 1) pArray
      else scanElems iMaxArrayLen n mem pEnd iRtnCount pArray
    | none =>
      match strchr mem (pStart + 1) (chr ']') with
      | some pEnd =>
        let mem := mem.set pEnd 0
        if strlen mem (pStart + 1) < 10 then
          some (iRtnCount + 1, pArray.write iRtnCount [atoi mem (pStart + 1)])
        else some (iRtnCount, pArray)
      | none => none

/-- `Scan_Params` on the text at `para = mem`: the count it returns and the array
it fills. -/
def Scan_Params (mem : List UInt8) (pArray : Buf Int m) (iMaxArrayLen : Nat) :
    Option (UInt8 × Buf Int m) :=
  match strchr mem 0 (chr '[') with
  | none =>
    let mem := match strchr mem 0 (chr ',') with
      | some pEnd => mem.set pEnd 0
      | none => mem
    if strlen mem 0 < 10 then some (1, pArray.write 0 [atoi mem 0]) else some (0, pArray)
  | some pStart =>
    (scanElems iMaxArrayLen iMaxArrayLen mem pStart 0 pArray).map fun r =>
      (UInt8.ofNat r.1, r.2)

end parser

/-! ## The parser on the text alone -/

/-- What stands before the first `c`. -/
def upto (c : UInt8) (s : List UInt8) : List UInt8 := s.takeWhile (· != c)

/-- What stands behind the first `c`. -/
def behind (c : UInt8) (s : List UInt8) : List UInt8 := s.drop ((upto c s).length + 1)

/-- What stands behind the last `c`. -/
def lastPart (c : UInt8) (s : List UInt8) : List UInt8 := (upto c s.reverse).reverse

section text

variable {m : Nat}

/-- The loop of `Scan_Params` on the text of the elements still to come. -/
def scanStr (iMaxArrayLen : Nat) : Nat → List UInt8 → Nat → Buf Int m →
    Option (Nat × Buf Int m)
  | 0, _, _, pArray => some (0, pArray)
  | n + 1, s, iRtnCount, pArray =>
    if chr ',' ∈ s then
      if (upto (chr ',') s).length < 10 then
        let pArray := pArray.write iRtnCount [atoiStr (upto (chr ',') s)]
        if iRtnCount + 1 ≥ iMaxArrayLen then some (iRtnCount + 1, pArray)
        else scanStr iMaxArrayLen n (behind (chr ',') s) (iRtnCount + 1) pArray
      else scanStr iMaxArrayLen n (behind (chr ',') s) iRtnCount pArray
    else if chr ']' ∈ s then
      if (upto (chr ']') s).length < 10 then
        some (iRtnCount + 1, pArray.write iRtnCount [atoiStr (upto (chr ']') s)])
      else some (iRtnCount, pArray)
    else none

/-- `Scan_Params` on the text of a parameter. -/
def scanText (s : List UInt8) (pArray : Buf Int m) (iMaxArrayLen : Nat) :
    Option (UInt8 × Buf Int m) :=
  if chr '[' ∈ s then
    (scanStr iMaxArrayLen iMaxArrayLen (behind (chr '[') s) 0 pArray).map fun r =>
      (UInt8.ofNat r.1, r.2)
  else if (upto (chr ',') s).length < 10 then
    some (1, pArray.write 0 [atoiStr (upto (chr ',') s)])
  else some (0, pArray)

end text

/-! ## Cutting in place -/

/-- Cutting the string at its first `c` leaves what stands before it. -/
theorem cstr_cut_self {mem : List UInt8} {pos : Nat} {c : UInt8} (h : c ∈ cstr mem pos) :
    cstr (mem.set (pos + (upto c (cstr mem pos)).length) 0) pos = upto c (cstr mem pos) := by
  have hlt := length_takeWhile_lt_strlen h
  rw [upto, cstr_set_self (Nat.le_of_lt hlt)]
  exact (List.prefix_iff_eq_take.mp (List.takeWhile_prefix _)).symm

/-- Behind the cut the string goes on as it was. -/
theorem cstr_cut_behind {mem : List UInt8} {pos : Nat} {c : UInt8} (h : c ∈ cstr mem pos) :
    cstr (mem.set (pos + (upto c (cstr mem pos)).length) 0)
      (pos + (upto c (cstr mem pos)).length + 1) = behind c (cstr mem pos) := by
  have hlt := length_takeWhile_lt_strlen h
  rw [cstr_set_before (by omega), Nat.add_assoc, cstr_drop (by rw [upto]; omega), behind]

variable {m : Nat}

/-- **The loop refines the recursion on the text.** -/
theorem scanElems_eq (iMaxArrayLen n : Nat) (mem : List UInt8) (pStart iRtnCount : Nat)
    (pArray : Buf Int m) :
    scanElems iMaxArrayLen n mem pStart iRtnCount pArray =
      scanStr iMaxArrayLen n (cstr mem (pStart + 1)) iRtnCount pArray := by
  induction n generalizing mem pStart iRtnCount pArray with
  | zero => rfl
  | succ n ih =>
      rw [scanElems, scanStr]
      by_cases hcomma : chr ',' ∈ cstr mem (pStart + 1)
      · have hself := cstr_cut_self hcomma
        have hbehind := cstr_cut_behind hcomma
        unfold upto at hself hbehind
        rw [strchr_of_mem hcomma, if_pos hcomma]
        simp only [strlen, atoi, hself, ih, hbehind, upto]
        rfl
      · rw [strchr_of_not_mem (by decide) hcomma, if_neg hcomma]
        by_cases hbracket : chr ']' ∈ cstr mem (pStart + 1)
        · have hself := cstr_cut_self hbracket
          unfold upto at hself
          rw [strchr_of_mem hbracket, if_pos hbracket]
          simp only [strlen, atoi, hself, upto]
          rfl
        · rw [strchr_of_not_mem (by decide) hbracket, if_neg hbracket]

/-- **`Scan_Params` depends on the text at `para` only.** -/
theorem Scan_Params_eq (mem : List UInt8) (pArray : Buf Int m) (iMaxArrayLen : Nat) :
    Scan_Params mem pArray iMaxArrayLen = scanText (cstr mem 0) pArray iMaxArrayLen := by
  rw [Scan_Params, scanText]
  by_cases hopen : chr '[' ∈ cstr mem 0
  · have hlt := length_takeWhile_lt_strlen hopen
    rw [strchr_of_mem hopen, if_pos hopen]
    simp only [scanElems_eq]
    rw [Nat.add_assoc, cstr_drop (by omega), behind, upto]
  · rw [strchr_of_not_mem (by decide) hopen, if_neg hopen]
    by_cases hcomma : chr ',' ∈ cstr mem 0
    · have hself := cstr_cut_self hcomma
      unfold upto at hself
      rw [strchr_of_mem hcomma]
      simp only [strlen, atoi, hself, upto]
      rfl
    · have hall : upto (chr ',') (cstr mem 0) = cstr mem 0 := by
        rw [upto, List.takeWhile_eq_self_iff]
        intro b hb
        simp only [bne_iff_ne, ne_eq]
        exact fun h => hcomma (h ▸ hb)
      rw [strchr_of_not_mem (by decide) hcomma]
      simp only [strlen, atoi, hall]
      rfl

/-! ## Parts of a text -/

/-- A text with a `c` is what stands before the first one, the `c`, and what
stands behind. -/
theorem eq_upto_behind {c : UInt8} {s : List UInt8} (h : c ∈ s) :
    s = upto c s ++ c :: behind c s := by
  induction s with
  | nil => simp at h
  | cons a s ih =>
      by_cases ha : a = c
      · subst ha
        simp [upto, behind]
      · have hne : (a != c) = true := by simpa using ha
        have hmem : c ∈ s := (List.mem_cons.mp h).resolve_left fun heq => ha heq.symm
        have hcons : upto c (a :: s) = a :: upto c s := by
          rw [upto, List.takeWhile_cons, if_pos hne, upto]
        have hbehind : behind c (a :: s) = behind c s := by
          rw [behind, hcons, List.length_cons, List.drop_succ_cons, behind]
        rw [hcons, hbehind, List.cons_append, ← ih hmem]

theorem not_mem_upto (c : UInt8) (s : List UInt8) : c ∉ upto c s := by
  intro h
  have := List.mem_takeWhile_imp h
  simp at this

theorem upto_append {c : UInt8} {u : List UInt8} (hu : c ∉ u) (t : List UInt8) :
    upto c (u ++ c :: t) = u := by
  rw [upto, List.takeWhile_append_of_pos]
  · simp
  · intro b hb
    simp only [bne_iff_ne, ne_eq]
    exact fun h => hu (h ▸ hb)

theorem behind_append {c : UInt8} {u : List UInt8} (hu : c ∉ u) (t : List UInt8) :
    behind c (u ++ c :: t) = t := by
  rw [behind, upto_append hu, List.drop_append, List.drop_of_length_le (by omega)]
  simp

/-- Text appended behind a `c` is appended to what stands behind the first one. -/
theorem behind_append_right {c : UInt8} {s : List UInt8} (h : c ∈ s) (t : List UInt8) :
    behind c (s ++ t) = behind c s ++ t := by
  have hst : s ++ t = upto c s ++ c :: (behind c s ++ t) := by
    rw [← List.cons_append, ← List.append_assoc, ← eq_upto_behind h]
  rw [hst, behind_append (not_mem_upto c s)]

theorem upto_append_right {c : UInt8} {s : List UInt8} (h : c ∈ s) (t : List UInt8) :
    upto c (s ++ t) = upto c s := by
  have hst : s ++ t = upto c s ++ c :: (behind c s ++ t) := by
    rw [← List.cons_append, ← List.append_assoc, ← eq_upto_behind h]
  rw [hst, upto_append (not_mem_upto c s)]

theorem upto_of_not_mem {c : UInt8} {s : List UInt8} (h : c ∉ s) : upto c s = s := by
  rw [upto, List.takeWhile_eq_self_iff]
  intro b hb
  simp only [bne_iff_ne, ne_eq]
  exact fun heq => h (heq ▸ hb)

theorem lastPart_of_not_mem {c : UInt8} {s : List UInt8} (h : c ∉ s) : lastPart c s = s := by
  rw [lastPart, upto_of_not_mem (by simpa using h), List.reverse_reverse]

/-- Nothing before a `c` matters for the part behind the last one. -/
theorem lastPart_append (c : UInt8) (u t : List UInt8) :
    lastPart c (u ++ c :: t) = lastPart c t := by
  rw [lastPart, lastPart]
  congr 1
  rw [List.reverse_append, List.reverse_cons, List.append_assoc]
  generalize t.reverse = r
  rw [upto, upto]
  induction r with
  | nil => simp
  | cons a r ih =>
      rw [List.cons_append, List.takeWhile_cons, List.takeWhile_cons]
      split
      · rw [ih]
      · rfl

/-- Text without a `c` prolongs the last part. -/
theorem lastPart_append_of_not_mem {c : UInt8} {t : List UInt8} (ht : c ∉ t) (s : List UInt8) :
    lastPart c (s ++ t) = lastPart c s ++ t := by
  rw [lastPart, lastPart, List.reverse_append, upto, List.takeWhile_append_of_pos]
  · rw [List.reverse_append, List.reverse_reverse, upto]
  · intro b hb
    simp only [bne_iff_ne, ne_eq]
    exact fun h => ht (h ▸ List.mem_reverse.mp hb)

/-- Splitting at the first comma counts it. -/
theorem count_behind {c : UInt8} {s : List UInt8} (h : c ∈ s) :
    s.count c = (behind c s).count c + 1 := by
  have hcount : s.count c = (upto c s ++ c :: behind c s).count c := by
    rw [← eq_upto_behind h]
  rw [hcount, List.count_append, List.count_cons_self,
    List.count_eq_zero_of_not_mem (not_mem_upto c s)]
  omega

theorem lastPart_behind {c : UInt8} {s : List UInt8} (h : c ∈ s) :
    lastPart c (behind c s) = lastPart c s := by
  have hs : lastPart c s = lastPart c (upto c s ++ c :: behind c s) := by
    rw [← eq_upto_behind h]
  rw [hs, lastPart_append]

theorem length_behind {c : UInt8} {s : List UInt8} (h : c ∈ s) :
    s.length = (upto c s).length + 1 + (behind c s).length := by
  have hlen : s.length = (upto c s ++ c :: behind c s).length := by rw [← eq_upto_behind h]
  rw [hlen, List.length_append, List.length_cons]
  omega

/-! ## What the loop returns -/

/-- One pass over an element with a comma behind it. -/
theorem scanStr_comma {iMaxArrayLen iRtnCount : Nat} (n : Nat) {s : List UInt8}
    (pArray : Buf Int m) (h : chr ',' ∈ s) (hlt : iRtnCount + 1 < iMaxArrayLen) :
    ∃ k pArray', iRtnCount ≤ k ∧ k ≤ iRtnCount + 1 ∧
      (k = iRtnCount → 10 ≤ (upto (chr ',') s).length) ∧
      scanStr iMaxArrayLen (n + 1) s iRtnCount pArray =
        scanStr iMaxArrayLen n (behind (chr ',') s) k pArray' := by
  rw [scanStr, if_pos h]
  by_cases hshort : (upto (chr ',') s).length < 10
  · refine ⟨iRtnCount + 1, pArray.write iRtnCount [atoiStr (upto (chr ',') s)], by omega,
      by omega, by omega, ?_⟩
    rw [if_pos hshort]
    exact if_neg (by omega)
  · refine ⟨iRtnCount, pArray, by omega, by omega, fun _ => by omega, ?_⟩
    rw [if_neg hshort]

/-- **When the parser writes through the null pointer**: the list runs out of
commas before the passes do and no bracket closes its last element. -/
theorem scanStr_eq_none_iff {iMaxArrayLen n iRtnCount : Nat} {s : List UInt8}
    {pArray : Buf Int m} (h : iRtnCount + n ≤ iMaxArrayLen) :
    scanStr iMaxArrayLen n s iRtnCount pArray = none ↔
      s.count (chr ',') < n ∧ chr ']' ∉ lastPart (chr ',') s := by
  induction n generalizing s iRtnCount pArray with
  | zero => simp [scanStr]
  | succ n ih =>
      by_cases hcomma : chr ',' ∈ s
      · by_cases hlt : iRtnCount + 1 < iMaxArrayLen
        · obtain ⟨k, pArray', hk, hk', -, heq⟩ := scanStr_comma n pArray hcomma hlt
          rw [heq, ih (by omega), lastPart_behind hcomma, count_behind hcomma,
            Nat.add_lt_add_iff_right]
        · -- the last pass: the result is an element count or zero
          have hn : n = 0 := by omega
          subst hn
          have hcount := count_behind hcomma
          constructor
          · intro hnone
            rw [scanStr, if_pos hcomma] at hnone
            split at hnone
            · rw [if_pos (by omega)] at hnone
              cases hnone
            · simp [scanStr] at hnone
          · intro hlt'
            omega
      · have hzero : s.count (chr ',') = 0 := List.count_eq_zero_of_not_mem hcomma
        rw [scanStr, if_neg hcomma, lastPart_of_not_mem hcomma, hzero]
        by_cases hbracket : chr ']' ∈ s
        · rw [if_pos hbracket]
          constructor
          · intro hnone
            split at hnone <;> cases hnone
          · intro hnot
            exact absurd hbracket hnot.2
        · rw [if_neg hbracket]
          exact ⟨fun _ => ⟨Nat.succ_pos n, hbracket⟩, fun _ => rfl⟩

/-- A text on which `Scan_Params` writes through the null pointer: an opened list
with fewer commas than passes and no bracket behind the last one. -/
def RunsOff (iMaxArrayLen : Nat) (t : List UInt8) : Prop :=
  chr '[' ∈ t ∧ (behind (chr '[') t).count (chr ',') < iMaxArrayLen ∧
    chr ']' ∉ lastPart (chr ',') (behind (chr '[') t)

instance (iMaxArrayLen : Nat) (t : List UInt8) : Decidable (RunsOff iMaxArrayLen t) := by
  unfold RunsOff
  infer_instance

theorem scanText_eq_none_iff {t : List UInt8} {iMaxArrayLen : Nat} (pArray : Buf Int m) :
    scanText t pArray iMaxArrayLen = none ↔ RunsOff iMaxArrayLen t := by
  rw [scanText, RunsOff]
  by_cases hopen : chr '[' ∈ t
  · rw [if_pos hopen, Option.map_eq_none_iff, scanStr_eq_none_iff (by omega)]
    exact ⟨fun h => ⟨hopen, h⟩, fun h => h.2⟩
  · rw [if_neg hopen]
    refine ⟨fun h => ?_, fun h => absurd h.1 hopen⟩
    split at h <;> cases h

/-- With a comma for every pass the text behind the last one is never read. -/
theorem scanStr_append {iMaxArrayLen n iRtnCount : Nat} {s : List UInt8} {pArray : Buf Int m}
    (h : n ≤ s.count (chr ',')) (t : List UInt8) :
    scanStr iMaxArrayLen n (s ++ t) iRtnCount pArray =
      scanStr iMaxArrayLen n s iRtnCount pArray := by
  induction n generalizing s iRtnCount pArray with
  | zero => rfl
  | succ n ih =>
      have hcomma : chr ',' ∈ s := List.count_pos_iff.mp (by omega)
      have hcount := count_behind hcomma
      rw [scanStr, scanStr, if_pos (List.mem_append_left t hcomma), if_pos hcomma,
        upto_append_right hcomma, behind_append_right hcomma]
      simp only [ih (show n ≤ (behind (chr ',') s).count (chr ',') by omega)]

/-- The count grows by at most one a pass, and the elements that are not counted
have ten characters or more. -/
theorem scanStr_count {iMaxArrayLen n iRtnCount c : Nat} {s : List UInt8}
    {pArray pArray' : Buf Int m} (h : iRtnCount + n ≤ iMaxArrayLen)
    (hcount : s.count (chr ',') < n)
    (hres : scanStr iMaxArrayLen n s iRtnCount pArray = some (c, pArray')) :
    iRtnCount ≤ c ∧ c ≤ iRtnCount + n ∧
      10 * s.count (chr ',') ≤ s.length + 10 * (c - iRtnCount) := by
  induction n generalizing s iRtnCount pArray with
  | zero => omega
  | succ n ih =>
      by_cases hcomma : chr ',' ∈ s
      · have hcnt := count_behind hcomma
        have hlen := length_behind hcomma
        obtain ⟨k, arr, hk, hk', hlong, heq⟩ :=
          scanStr_comma n pArray hcomma (by omega : iRtnCount + 1 < iMaxArrayLen)
        rw [heq] at hres
        obtain ⟨hle, hup, hsum⟩ := ih (by omega) (by omega) hres
        refine ⟨by omega, by omega, ?_⟩
        by_cases hkeep : k = iRtnCount
        · have := hlong hkeep
          omega
        · omega
      · rw [List.count_eq_zero_of_not_mem hcomma]
        have hc : c = iRtnCount + 1 ∨ c = iRtnCount := by
          rw [scanStr, if_neg hcomma] at hres
          split at hres
          · split at hres
            · exact Or.inl (Prod.mk.inj (Option.some.inj hres)).1.symm
            · exact Or.inr (Prod.mk.inj (Option.some.inj hres)).1.symm
          · cases hres
        omega

/-- A list whose last pass takes an element of ten characters or more with a
comma behind it counts nothing. -/
theorem scanStr_overrun {iMaxArrayLen n iRtnCount : Nat} {s : List UInt8}
    (h : iRtnCount + (n + 1) ≤ iMaxArrayLen) (hcount : s.count (chr ',') = n)
    (hlong : 10 ≤ (lastPart (chr ',') s).length) (pArray : Buf Int m) :
    ∃ pArray', scanStr iMaxArrayLen (n + 1) (s ++ [chr ',']) iRtnCount pArray =
      some (0, pArray') := by
  induction n generalizing s iRtnCount pArray with
  | zero =>
      have hnot : chr ',' ∉ s := List.count_eq_zero.mp hcount
      rw [lastPart_of_not_mem hnot] at hlong
      refine ⟨pArray, ?_⟩
      rw [scanStr, if_pos (by simp), upto_append hnot, if_neg (by omega)]
      rfl
  | succ n ih =>
      have hcomma : chr ',' ∈ s := List.count_pos_iff.mp (by omega)
      have hcnt := count_behind hcomma
      obtain ⟨k, arr, hk, hk', -, heq⟩ := scanStr_comma (n + 1) pArray
        (List.mem_append_left [chr ','] hcomma) (by omega : iRtnCount + 1 < iMaxArrayLen)
      rw [heq, behind_append_right hcomma]
      exact ih (by omega) (by omega) (by rwa [lastPart_behind hcomma]) arr

end NetCamera
