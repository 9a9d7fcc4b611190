import NetCamera.Protocol.ScanTrace

/-!
# NetCamera.Protocol.Positions

Whether the integers of a list keep their positions.

A list text is given by its numerals (`Numeral`), printed between brackets by
`listText`.  The scanner counts the elements it has seen and the slots it has
filled apart, so behind an element it passes over every further one is stored one
slot too early.  `scan_positions_iff` says for which lists that shows.
-/

namespace NetCamera

open CString

/-! ## Numerals -/

/-- A sign in front of a numeral. -/
inductive Sign where
  | none
  | plus
  | minus
  deriving DecidableEq, Repr

/-- An optional sign and decimal digits. -/
structure Numeral where
  sign : Sign
  digits : List (Fin 10)
  deriving DecidableEq, Repr

/-- The character of a digit. -/
def digitChar (d : Fin 10) : UInt8 := UInt8.ofNat (0x30 + d.val)

namespace Numeral

/-- The numeral as text. -/
def text (e : Numeral) : List UInt8 :=
  match e.sign with
  | .none => e.digits.map digitChar
  | .plus => chr '+' :: e.digits.map digitChar
  | .minus => chr '-' :: e.digits.map digitChar

/-- The number the digits denote. -/
def magnitude (e : Numeral) : Nat := e.digits.foldl (fun v d => 10 * v + d.val) 0

/-- The number the numeral denotes. -/
def value (e : Numeral) : Int :=
  match e.sign with
  | .minus => - (e.magnitude : Int)
  | _ => e.magnitude

end Numeral

theorem isdigit_digitChar (d : Fin 10) : isdigit (digitChar d) = true := by
  revert d
  decide

theorem digitsVal_digitChars (ds : List (Fin 10)) :
    digitsVal (ds.map digitChar) = ds.foldl (fun v d => 10 * v + d.val) 0 := by
  have hall : ∀ b ∈ ds.map digitChar, isdigit b = true := by
    intro b hb
    obtain ⟨d, -, rfl⟩ := List.mem_map.mp hb
    exact isdigit_digitChar d
  have hval : ∀ d : Fin 10, (digitChar d).toNat - 0x30 = d.val := by decide
  rw [digitsVal, List.takeWhile_eq_self_iff.mpr hall, List.foldl_map]
  simp only [hval]

/-- `atoi` reads a numeral. -/
theorem atoiStr_text (e : Numeral) : atoiStr e.text = e.value := by
  obtain ⟨sign, ds⟩ := e
  have hval := digitsVal_digitChars ds
  cases sign with
  | none =>
      cases ds with
      | nil => rfl
      | cons d ds =>
          obtain ⟨hspace, hminus, hplus⟩ := ne_of_isdigit (isdigit_digitChar d)
          rw [Numeral.text, Numeral.value, Numeral.magnitude, ← hval, atoiStr, List.map_cons,
            List.dropWhile_cons, if_neg (by simp [hspace])]
          simp only [if_neg hminus, if_neg hplus]
  | plus =>
      rw [Numeral.value, Numeral.magnitude, ← hval]
      rfl
  | minus =>
      rw [Numeral.value, Numeral.magnitude, ← hval]
      rfl

/-- A numeral holds no separator. -/
theorem not_mem_text (e : Numeral) :
    0 ∉ e.text ∧ chr '[' ∉ e.text ∧ chr ',' ∉ e.text ∧ chr ']' ∉ e.text := by
  have hdigit : ∀ d : Fin 10, digitChar d ≠ 0 ∧ digitChar d ≠ chr '[' ∧ digitChar d ≠ chr ',' ∧
      digitChar d ≠ chr ']' := by decide
  have hdigits : ∀ ds : List (Fin 10), 0 ∉ ds.map digitChar ∧ chr '[' ∉ ds.map digitChar ∧
      chr ',' ∉ ds.map digitChar ∧ chr ']' ∉ ds.map digitChar := by
    intro ds
    simp only [List.mem_map, not_exists, not_and]
    grind
  have hsign : ∀ c : UInt8, c = chr '+' ∨ c = chr '-' →
      0 ≠ c ∧ chr '[' ≠ c ∧ chr ',' ≠ c ∧ chr ']' ≠ c := by
    rintro c (rfl | rfl) <;> decide
  obtain ⟨sign, ds⟩ := e
  cases sign with
  | none => exact hdigits ds
  | plus => grind [Numeral.text]
  | minus => grind [Numeral.text]

/-! ## Lists -/

/-- `e1,e2,...,ek]`. -/
def bodyText (es : List Numeral) : List UInt8 :=
  [chr ','].intercalate (es.map Numeral.text) ++ [chr ']']

/-- `[e1,e2,...,ek]`. -/
def listText (es : List Numeral) : List UInt8 := chr '[' :: bodyText es

theorem bodyText_singleton (e : Numeral) : bodyText [e] = e.text ++ [chr ']'] := by
  simp [bodyText]

theorem bodyText_cons (e e' : Numeral) (es : List Numeral) :
    bodyText (e :: e' :: es) = e.text ++ chr ',' :: bodyText (e' :: es) := by
  simp [bodyText]

theorem elements_bodyText {es : List Numeral} (hne : es ≠ []) :
    elements (bodyText es) = es.map Numeral.text := by
  induction es with
  | nil => exact absurd rfl hne
  | cons e es ih =>
      obtain ⟨-, -, hcomma, hclose⟩ := not_mem_text e
      cases es with
      | nil =>
          have hnot : chr ',' ∉ e.text ++ [chr ']'] := by
            have hneq : chr ',' ≠ chr ']' := by decide
            simp [hcomma, hneq]
          rw [bodyText_singleton, elements_of_not_mem hnot, upto_append hclose]
          rfl
      | cons e' es =>
          rw [bodyText_cons, elements_of_mem (by simp), upto_append hcomma, behind_append hcomma,
            ih (List.cons_ne_nil _ _), List.map_cons, List.map_cons, List.map_cons]

/-- The last element is closed. -/
theorem mem_lastPart_bodyText {es : List Numeral} (hne : es ≠ []) :
    chr ']' ∈ lastPart (chr ',') (bodyText es) := by
  induction es with
  | nil => exact absurd rfl hne
  | cons e es ih =>
      obtain ⟨-, -, hcomma, -⟩ := not_mem_text e
      cases es with
      | nil =>
          have hnot : chr ',' ∉ e.text ++ [chr ']'] := by
            have hneq : chr ',' ≠ chr ']' := by decide
            simp [hcomma, hneq]
          rw [bodyText_singleton, lastPart_of_not_mem hnot]
          simp
      | cons e' es =>
          rw [bodyText_cons, lastPart_append]
          exact ih (List.cons_ne_nil _ _)

theorem behind_listText (es : List Numeral) : behind (chr '[') (listText es) = bodyText es := by
  have h := behind_append (c := chr '[') (u := []) (by simp) (bodyText es)
  rwa [List.nil_append] at h

theorem zero_not_mem_listText (es : List Numeral) : 0 ∉ listText es := by
  have hbody : 0 ∉ bodyText es := by
    induction es with
    | nil => decide
    | cons e es ih =>
        obtain ⟨hzero, -, -, -⟩ := not_mem_text e
        have hclose : (0 : UInt8) ≠ chr ']' := by decide
        have hcomma : (0 : UInt8) ≠ chr ',' := by decide
        cases es with
        | nil => simp [bodyText_singleton, hzero, hclose]
        | cons e' es => simp [bodyText_cons, hzero, hcomma, ih]
  have hopen : (0 : UInt8) ≠ chr '[' := by decide
  simp [listText, hopen, hbody]

section list

variable {es : List Numeral}

theorem looked_listText (hne : es ≠ []) (iMaxArrayLen : Nat) :
    looked iMaxArrayLen (listText es) = (es.take iMaxArrayLen).map Numeral.text := by
  rw [looked, if_pos (by simp [listText]), behind_listText, elements_bodyText hne, List.map_take]

theorem not_runsOff_listText (hne : es ≠ []) (iMaxArrayLen : Nat) :
    ¬ RunsOff iMaxArrayLen (listText es) := by
  rintro ⟨-, -, hnot⟩
  rw [behind_listText] at hnot
  exact hnot (mem_lastPart_bodyText hne)

/-- A list is overfull when it has more elements than there are passes. -/
theorem overfull_listText_iff (hne : es ≠ []) (iMaxArrayLen : Nat) :
    Overfull iMaxArrayLen (listText es) ↔ iMaxArrayLen < es.length := by
  have hlen := length_elements (bodyText es)
  rw [elements_bodyText hne, List.length_map] at hlen
  have hopen : chr '[' ∈ listText es := by simp [listText]
  rw [Overfull, behind_listText]
  constructor
  · intro h
    omega
  · intro h
    exact ⟨hopen, by omega⟩

end list

/-! ## Slots and passes -/

/-- Once an element was passed over, the slots stay behind the passes. -/
theorem storesFrom_lt {slot i : Nat} (h : slot < i) (ts : List (List UInt8)) :
    ∀ p ∈ storesFrom slot i ts, p.1 < p.2 := by
  induction ts generalizing slot i with
  | nil => simp [storesFrom]
  | cons e ts ih =>
      intro p hp
      rw [storesFrom] at hp
      split at hp
      · rcases List.mem_cons.mp hp with rfl | hp
        · exact h
        · exact ih (by omega) p hp
      · exact ih (by omega) p hp

/-- Every integer goes to the slot of its element exactly when the elements passed
over all stand behind the others. -/
theorem storesFrom_slot_iff (i : Nat) (ts : List (List UInt8)) :
    (∀ p ∈ storesFrom i i ts, p.1 = p.2) ↔ shorts ts <+: ts := by
  induction ts generalizing i with
  | nil => simp [storesFrom, shorts]
  | cons e ts ih =>
      by_cases hshort : Short e
      · have hcons : shorts (e :: ts) = e :: shorts ts :=
          List.filter_cons_of_pos (by simpa using hshort)
        rw [storesFrom, if_pos hshort, hcons, List.cons_prefix_cons, ← ih (i + 1)]
        simp
      · have hcons : shorts (e :: ts) = shorts ts := List.filter_cons_of_neg (by simpa using hshort)
        have hlt := storesFrom_lt (Nat.lt_succ_self i) ts
        rw [storesFrom, if_neg hshort, hcons]
        constructor
        · intro h
          have hnil : storesFrom i (i + 1) ts = [] := by
            rw [List.eq_nil_iff_forall_not_mem]
            intro p hp
            have := hlt p hp
            have := h p hp
            omega
          have hlen := length_storesFrom i (i + 1) ts
          rw [hnil, List.length_nil] at hlen
          rw [List.length_eq_zero_iff.mp hlen.symm]
          exact List.nil_prefix
        · intro h p hp
          cases hs : shorts ts with
          | nil =>
              have hlen := length_storesFrom i (i + 1) ts
              rw [hs, List.length_nil, List.length_eq_zero_iff] at hlen
              rw [hlen] at hp
              cases hp
          | cons e' es =>
              -- the first short element would be the long `e`
              rw [hs, List.cons_prefix_cons] at h
              have hmem : e' ∈ shorts ts := hs ▸ List.mem_cons_self
              have hshort' : Short e' := by simpa using (List.mem_filter.mp hmem).2
              exact absurd (h.1 ▸ hshort') hshort

/-! ## Positions -/

section positions

variable {n : Nat}

/-- What is asked of a call on a list: a count that is not zero is the number of elements, or
the maximum, and slot `j` holds element `j`; an unreadable element among the first `n`
makes the count zero; and no pass fills the slot of another element. -/
def KeepsPositions (es : List Numeral) (rest : List UInt8) (pArray : Buf Int n) : Prop :=
  ∃ c values, Scan_Params (listText es ++ 0 :: rest) pArray n = some (c, values) ∧
    (0 < c → c.toNat = min es.length n ∧
      ∀ j < c.toNat, values.elems[j]? = es[j]?.map Numeral.value) ∧
    ((∃ e ∈ es.take n, ¬ Short e.text) → c = 0) ∧
    ∀ p ∈ stores (scanLog (listText es ++ 0 :: rest) pArray n).1, p.1 = p.2

/-- The texts of the elements a call can store. -/
def firstTexts (n : Nat) (es : List Numeral) : List (List UInt8) := (es.take n).map Numeral.text

/-- The lists whose positions are kept: the readable elements among the first `n`
stand in front, and their number is a multiple of 256, or there are no others and
fewer than 256 of them, or there are others and the list has more than `n`
elements. -/
def Positioned (n : Nat) (es : List Numeral) : Prop :=
  shorts (firstTexts n es) <+: firstTexts n es ∧
    ((shorts (firstTexts n es)).length % 256 = 0 ∨
      ((shorts (firstTexts n es)).length = (firstTexts n es).length ∧
        (shorts (firstTexts n es)).length < 256) ∨
      ((shorts (firstTexts n es)).length < (firstTexts n es).length ∧ n < es.length))

/-- A readable element is missing exactly when there is an unreadable one. -/
theorem shorts_lt_iff (es : List Numeral) :
    (shorts (firstTexts n es)).length < (firstTexts n es).length ↔
      ∃ e ∈ es.take n, ¬ Short e.text := by
  rw [shorts, List.length_filter_lt_length_iff_exists, firstTexts]
  simp only [List.mem_map, decide_eq_true_eq]
  grind

theorem length_firstTexts (es : List Numeral) : (firstTexts n es).length = min es.length n := by
  rw [firstTexts, List.length_map, List.length_take, Nat.min_comm]

/-- With no unreadable element the integers stored are the values in order. -/
theorem reads_firstTexts {es : List Numeral}
    (h : (shorts (firstTexts n es)).length = (firstTexts n es).length) :
    reads (firstTexts n es) = (es.take n).map Numeral.value := by
  have hall : shorts (firstTexts n es) = firstTexts n es :=
    List.filter_sublist.eq_of_length h
  rw [reads, hall, firstTexts, List.map_map]
  exact List.map_congr_left fun e _ => atoiStr_text e

/-- What is counted of a list. -/
theorem counted_listText {es : List Numeral} (hne : es ≠ []) :
    counted n (listText es) =
      if n < es.length ∧ (shorts (firstTexts n es)).length < n then 0
      else (shorts (firstTexts n es)).length := by
  have hle : (shorts (firstTexts n es)).length ≤ n := by
    have hshorts := length_shorts_le (firstTexts n es)
    rw [length_firstTexts] at hshorts
    omega
  rw [counted, looked_listText hne, ← firstTexts]
  simp only [overfull_listText_iff hne]
  grind

/-- The slots then hold the values. -/
theorem getElem?_write_reads {es : List Numeral}
    (h : (shorts (firstTexts n es)).length = (firstTexts n es).length) (pArray : Buf Int n)
    {j : Nat} (hj : j < min es.length n) :
    (pArray.write 0 (reads (firstTexts n es))).elems[j]? = es[j]?.map Numeral.value := by
  have hlen : (reads (firstTexts n es)).length = min es.length n := by
    rw [length_reads, h, length_firstTexts]
  rw [Buf.elems_write _ (by omega), List.take_zero, List.nil_append,
    List.getElem?_append_left (by omega), reads_firstTexts h, List.getElem?_map,
    List.getElem?_take_of_lt (by omega)]

/-- What a call on a list does: the count is a byte, and the stores go into the slots in order. -/
theorem keepsPositions_iff {es : List Numeral} (hne : es ≠ []) (hn : 0 < n) (rest : List UInt8)
    (pArray : Buf Int n) :
    KeepsPositions es rest pArray ↔
      shorts (firstTexts n es) <+: firstTexts n es ∧
        (0 < counted n (listText es) % 256 →
          counted n (listText es) % 256 = min es.length n ∧
            ∀ j < counted n (listText es) % 256,
              (pArray.write 0 (reads (firstTexts n es))).elems[j]? = es[j]?.map Numeral.value) ∧
        ((shorts (firstTexts n es)).length < (firstTexts n es).length →
          counted n (listText es) % 256 = 0) := by
  have htext := cstr_append_zero (zero_not_mem_listText es) rest
  have hscan := scanText_eq hn (not_runsOff_listText hne n) pArray
  have hret : (scanLog (listText es ++ 0 :: rest) pArray n).2.isSome = true := by
    rw [scanLog_isSome_iff, htext]
    exact not_runsOff_listText hne n
  have hstores := scanLog_stores hret
  rw [htext, looked_listText hne, ← firstTexts] at hstores
  rw [looked_listText hne, ← firstTexts] at hscan
  have hnat : (UInt8.ofNat (counted n (listText es))).toNat = counted n (listText es) % 256 :=
    UInt8.toNat_ofNat'
  have hzero : UInt8.ofNat (counted n (listText es)) = 0 ↔ counted n (listText es) % 256 = 0 := by
    rw [← UInt8.toNat_inj, hnat]
    rfl
  have hpos : 0 < UInt8.ofNat (counted n (listText es)) ↔
      0 < counted n (listText es) % 256 := by
    rw [UInt8.lt_iff_toNat_lt, hnat]
    rfl
  rw [KeepsPositions, hstores, Scan_Params_eq, htext, hscan, ← shorts_lt_iff,
    ← storesFrom_slot_iff 0, ← hzero, ← hpos, ← hnat]
  constructor
  · rintro ⟨c, values, heq, hcount, hlong, hslots⟩
    obtain ⟨rfl, rfl⟩ := Prod.mk.inj (Option.some.inj heq)
    exact ⟨hslots, hcount, hlong⟩
  · rintro ⟨hslots, hcount, hlong⟩
    exact ⟨_, _, rfl, hcount, hlong, hslots⟩

/-- **Positions are kept exactly for these lists.** -/
theorem scan_positions_iff {es : List Numeral} (hne : es ≠ []) (hn : 0 < n) (rest : List UInt8)
    (pArray : Buf Int n) : KeepsPositions es rest pArray ↔ Positioned n es := by
  have hlen := length_firstTexts (n := n) es
  have hle := length_shorts_le (firstTexts n es)
  rw [keepsPositions_iff hne hn, Positioned, counted_listText hne]
  refine and_congr_right fun _ => ?_
  generalize hK : (if n < es.length ∧ (shorts (firstTexts n es)).length < n then 0
    else (shorts (firstTexts n es)).length) = K
  constructor
  · rintro ⟨hcount, hlong⟩
    split at hK
    · omega
    · by_cases hall : (shorts (firstTexts n es)).length < (firstTexts n es).length
      · have := hlong hall
        omega
      · by_cases hmod : 0 < K % 256
        · have := (hcount hmod).1
          omega
        · omega
  · intro hcases
    constructor
    · intro hmod
      have hall : (shorts (firstTexts n es)).length = (firstTexts n es).length := by
        split at hK <;> omega
      have hK' : K % 256 = min es.length n := by
        split at hK <;> omega
      exact ⟨hK', fun j hj => getElem?_write_reads hall pArray (by omega)⟩
    · intro hlt
      split at hK <;> omega

/-- `[192,168,-7]`. -/
theorem scan_positions_three :
    KeepsPositions [⟨.none, [1, 9, 2]⟩, ⟨.plus, [1, 6, 8]⟩, ⟨.minus, [7]⟩] []
      (Buf.fill 8 0 : Buf Int 8) :=
  (scan_positions_iff (by decide) (by decide) [] _).mpr
    ⟨by decide, Or.inr (Or.inl (by decide))⟩

/-- `[1234567890,2,3,4]`: the first element has ten characters, three integers are
counted, and 2 stands in the first slot. -/
theorem scan_shifted :
    Scan_Params (listText [⟨.none, [1, 2, 3, 4, 5, 6, 7, 8, 9, 0]⟩, ⟨.none, [2]⟩, ⟨.none, [3]⟩,
        ⟨.none, [4]⟩] ++ 0 :: []) (Buf.fill 8 0 : Buf Int 8) 8 =
      some (3, (Buf.fill 8 0).write 0 [2, 3, 4]) ∧
    ¬ KeepsPositions [⟨.none, [1, 2, 3, 4, 5, 6, 7, 8, 9, 0]⟩, ⟨.none, [2]⟩, ⟨.none, [3]⟩,
      ⟨.none, [4]⟩] [] (Buf.fill 8 0 : Buf Int 8) := by
  have hscan : Scan_Params (listText [⟨.none, [1, 2, 3, 4, 5, 6, 7, 8, 9, 0]⟩, ⟨.none, [2]⟩,
      ⟨.none, [3]⟩, ⟨.none, [4]⟩] ++ 0 :: []) (Buf.fill 8 0 : Buf Int 8) 8 =
      some (3, (Buf.fill 8 0).write 0 [2, 3, 4]) := by decide
  refine ⟨hscan, ?_⟩
  rintro ⟨c, values, heq, hcount, -, -⟩
  rw [hscan] at heq
  obtain ⟨rfl, rfl⟩ := Prod.mk.inj (Option.some.inj heq)
  have hthree := (hcount (by decide)).1
  revert hthree
  decide

end positions

end NetCamera
