import NetCamera.Protocol.Scan

/-!
# NetCamera.Protocol.Elements

What `Scan_Params` reads, as a list of elements.

```
[ e1 , e2 , ... , ek ] anything
```

The commas behind the bracket separate the elements, and a closing bracket ends
the last one.  The loop stores the elements of fewer than ten characters (`Short`)
one behind the other and passes over the rest.  How it ends depends on the number
of commas alone:

* `scanStr_closed` — the list ends before the passes do: every short element is
  stored and counted;
* `scanStr_open` — there are at least as many elements with a comma behind them
  as passes: the count is the maximum if they are all short, and zero otherwise,
  whatever was stored.

`scanText_eq` puts the two together with the single number: what a call looks at
(`looked`) and what it counts (`counted`).
-/

namespace NetCamera

open CString

/-! ## Elements -/

/-- `strlen(pStart)<10`. -/
def Short (e : List UInt8) : Prop := e.length < 10

instance (e : List UInt8) : Decidable (Short e) :=
  inferInstanceAs (Decidable (e.length < 10))

/-- What stands between the commas. -/
def parts (s : List UInt8) : List (List UInt8) := s.splitOn (chr ',')

/-- The parts of a list, the last one up to the closing bracket. -/
def closeLast : List (List UInt8) → List (List UInt8)
  | [] => []
  | [e] => [upto (chr ']') e]
  | e :: e' :: es => e :: closeLast (e' :: es)

/-- The elements of the list whose text is `s`. -/
def elements (s : List UInt8) : List (List UInt8) := closeLast (parts s)

/-- The short elements among `es`. -/
def shorts (es : List (List UInt8)) : List (List UInt8) := es.filter fun e => decide (Short e)

/-- The integers stored for `es`. -/
def reads (es : List (List UInt8)) : List Int := (shorts es).map atoiStr

@[simp] theorem reads_nil : reads [] = [] := rfl

@[simp] theorem length_reads (es : List (List UInt8)) : (reads es).length = (shorts es).length := by
  rw [reads, List.length_map]

theorem length_shorts_le (es : List (List UInt8)) : (shorts es).length ≤ es.length :=
  List.length_filter_le _ es

theorem reads_cons_short {e : List UInt8} (h : Short e) (es : List (List UInt8)) :
    reads (e :: es) = atoiStr e :: reads es := by
  rw [reads, shorts, List.filter_cons_of_pos (by simpa using h), List.map_cons, reads, shorts]

theorem reads_cons_long {e : List UInt8} (h : ¬ Short e) (es : List (List UInt8)) :
    reads (e :: es) = reads es := by
  rw [reads, shorts, List.filter_cons_of_neg (by simpa using h), reads, shorts]

theorem parts_of_not_mem {s : List UInt8} (h : chr ',' ∉ s) : parts s = [s] :=
  List.splitOn_eq_singleton h

theorem parts_of_mem {s : List UInt8} (h : chr ',' ∈ s) :
    parts s = upto (chr ',') s :: parts (behind (chr ',') s) := by
  conv_lhs => rw [eq_upto_behind h]
  exact List.splitOn_append_cons_self_of_not_mem (not_mem_upto _ s) _

theorem parts_ne_nil (s : List UInt8) : parts s ≠ [] := List.splitOn_ne_nil _ s

theorem elements_of_not_mem {s : List UInt8} (h : chr ',' ∉ s) :
    elements s = [upto (chr ']') s] := by
  rw [elements, parts_of_not_mem h, closeLast]

theorem elements_of_mem {s : List UInt8} (h : chr ',' ∈ s) :
    elements s = upto (chr ',') s :: elements (behind (chr ',') s) := by
  rw [elements, parts_of_mem h, elements]
  cases hp : parts (behind (chr ',') s) with
  | nil => exact absurd hp (parts_ne_nil _)
  | cons e es => rfl

/-- One element more than commas. -/
theorem length_elements (s : List UInt8) : (elements s).length = s.count (chr ',') + 1 := by
  induction hk : s.count (chr ',') generalizing s with
  | zero => rw [elements_of_not_mem (List.count_eq_zero.mp hk), List.length_singleton]
  | succ k ih =>
      have hcomma : chr ',' ∈ s := List.count_pos_iff.mp (by omega)
      have hcount := count_behind hcomma
      rw [elements_of_mem hcomma, List.length_cons, ih _ (by omega)]

/-! ## What the loop stores -/

section loop

variable {m : Nat}

/-- A list that is closed before the passes run out: the short elements are stored
one behind the other and counted. -/
theorem scanStr_closed {iMaxArrayLen n iRtnCount : Nat} {s : List UInt8} (pArray : Buf Int m)
    (h : iRtnCount + n ≤ iMaxArrayLen) (hcount : s.count (chr ',') < n)
    (hclose : chr ']' ∈ lastPart (chr ',') s) :
    scanStr iMaxArrayLen n s iRtnCount pArray =
      some (iRtnCount + (reads (elements s)).length,
        pArray.write iRtnCount (reads (elements s))) := by
  induction n generalizing s iRtnCount pArray with
  | zero => omega
  | succ n ih =>
      by_cases hcomma : chr ',' ∈ s
      · have hcnt := count_behind hcomma
        have hlast : chr ']' ∈ lastPart (chr ',') (behind (chr ',') s) := by
          rwa [lastPart_behind hcomma]
        rw [scanStr, if_pos hcomma, elements_of_mem hcomma]
        by_cases hshort : (upto (chr ',') s).length < 10
        · rw [if_pos hshort, reads_cons_short hshort, List.length_cons,
            Buf.write_cons pArray iRtnCount _ (reads (elements (behind (chr ',') s)))]
          simp only [if_neg (show ¬ iRtnCount + 1 ≥ iMaxArrayLen by omega)]
          rw [ih _ (by omega) (by omega) hlast, Nat.add_assoc, Nat.add_comm 1]
        · rw [if_neg hshort, reads_cons_long hshort, ih _ (by omega) (by omega) hlast]
      · rw [lastPart_of_not_mem hcomma] at hclose
        rw [scanStr, if_neg hcomma, if_pos hclose, elements_of_not_mem hcomma]
        by_cases hshort : (upto (chr ']') s).length < 10
        · rw [if_pos hshort, reads_cons_short hshort]
          rfl
        · rw [if_neg hshort, reads_cons_long hshort, reads_nil, Buf.write_nil]
          rfl

/-- A list with a comma for every pass: the passes take the first elements, and the
count is the maximum if none of them is passed over and zero otherwise. -/
theorem scanStr_open {iMaxArrayLen n iRtnCount : Nat} {s : List UInt8} (pArray : Buf Int m)
    (h : iRtnCount + n ≤ iMaxArrayLen) (hlt : iRtnCount < iMaxArrayLen)
    (hcount : n ≤ s.count (chr ',')) :
    scanStr iMaxArrayLen n s iRtnCount pArray =
      some (if iRtnCount + (reads ((elements s).take n)).length = iMaxArrayLen
          then iMaxArrayLen else 0,
        pArray.write iRtnCount (reads ((elements s).take n))) := by
  induction n generalizing s iRtnCount pArray with
  | zero =>
      rw [scanStr, List.take_zero, reads_nil, Buf.write_nil,
        if_neg (show ¬ iRtnCount + ([] : List Int).length = iMaxArrayLen by simp; omega)]
  | succ n ih =>
      have hcomma : chr ',' ∈ s := List.count_pos_iff.mp (by omega)
      have hcnt := count_behind hcomma
      rw [scanStr, if_pos hcomma, elements_of_mem hcomma, List.take_succ_cons]
      by_cases hshort : (upto (chr ',') s).length < 10
      · rw [if_pos hshort, reads_cons_short hshort, List.length_cons,
          Buf.write_cons pArray iRtnCount _ (reads ((elements (behind (chr ',') s)).take n))]
        by_cases hfull : iRtnCount + 1 ≥ iMaxArrayLen
        · have hn : n = 0 := by omega
          rw [hn, List.take_zero, reads_nil, Buf.write_nil, List.length_nil,
            if_pos (show iRtnCount + (0 + 1) = iMaxArrayLen by omega)]
          simp only [if_pos hfull]
          rw [show iRtnCount + 1 = iMaxArrayLen by omega]
        · simp only [if_neg hfull]
          rw [ih _ (by omega) (by omega) (by omega), Nat.add_assoc, Nat.add_comm 1]
      · rw [if_neg hshort, reads_cons_long hshort, ih _ (by omega) hlt (by omega)]

/-! ## What a call looks at -/

/-- The elements of a parameter: those of its list, or the single number. -/
def allElements (t : List UInt8) : List (List UInt8) :=
  if chr '[' ∈ t then elements (behind (chr '[') t) else [upto (chr ',') t]

/-- The elements a call looks at: one for each pass of the loop, or the single
number. -/
def looked (iMaxArrayLen : Nat) (t : List UInt8) : List (List UInt8) :=
  if chr '[' ∈ t then (elements (behind (chr '[') t)).take iMaxArrayLen
  else [upto (chr ',') t]

/-- A list with a comma behind the element of the last pass. -/
def Overfull (iMaxArrayLen : Nat) (t : List UInt8) : Prop :=
  chr '[' ∈ t ∧ iMaxArrayLen ≤ (behind (chr '[') t).count (chr ',')

instance (iMaxArrayLen : Nat) (t : List UInt8) : Decidable (Overfull iMaxArrayLen t) := by
  unfold Overfull
  infer_instance

/-- The count of a call.  An overfull list in which an element was passed over runs
into the `return 0` behind the loop. -/
def counted (iMaxArrayLen : Nat) (t : List UInt8) : Nat :=
  if Overfull iMaxArrayLen t ∧ (shorts (looked iMaxArrayLen t)).length ≠ iMaxArrayLen then 0
  else (shorts (looked iMaxArrayLen t)).length

/-- **What `Scan_Params` returns** on a text on which it returns. -/
theorem scanText_eq {iMaxArrayLen : Nat} (hpos : 0 < iMaxArrayLen) {t : List UInt8}
    (h : ¬ RunsOff iMaxArrayLen t) (pArray : Buf Int m) :
    scanText t pArray iMaxArrayLen =
      some (UInt8.ofNat (counted iMaxArrayLen t),
        pArray.write 0 (reads (looked iMaxArrayLen t))) := by
  by_cases hopen : chr '[' ∈ t
  · have hlook : looked iMaxArrayLen t =
        (elements (behind (chr '[') t)).take iMaxArrayLen := if_pos hopen
    have hlen := length_elements (behind (chr '[') t)
    rw [scanText, if_pos hopen, counted, hlook]
    by_cases hfull : iMaxArrayLen ≤ (behind (chr '[') t).count (chr ',')
    · have hover : Overfull iMaxArrayLen t := ⟨hopen, hfull⟩
      rw [scanStr_open pArray (by omega) hpos hfull, Option.map_some, length_reads, Nat.zero_add]
      by_cases hall : (shorts ((elements (behind (chr '[') t)).take iMaxArrayLen)).length =
          iMaxArrayLen
      · rw [if_pos hall, if_neg (by simp [hall]), hall]
      · rw [if_neg hall, if_pos ⟨hover, hall⟩]
    · have hclose : chr ']' ∈ lastPart (chr ',') (behind (chr '[') t) := by
        by_contra hnot
        exact h ⟨hopen, by omega, hnot⟩
      rw [scanStr_closed pArray (by omega) (by omega) hclose,
        if_neg (fun hc : Overfull iMaxArrayLen t ∧ _ => hfull hc.1.2),
        List.take_of_length_le (by omega), Option.map_some, length_reads, Nat.zero_add]
  · have hlook : looked iMaxArrayLen t = [upto (chr ',') t] := if_neg hopen
    rw [scanText, if_neg hopen, counted,
      if_neg (fun hc : Overfull iMaxArrayLen t ∧ _ => hopen hc.1.1), hlook]
    by_cases hshort : (upto (chr ',') t).length < 10
    · rw [if_pos hshort, ← length_reads, reads_cons_short hshort]
      rfl
    · rw [if_neg hshort, ← length_reads, reads_cons_long hshort, reads_nil, Buf.write_nil]
      rfl

theorem counted_le (iMaxArrayLen : Nat) (t : List UInt8) :
    counted iMaxArrayLen t ≤ (shorts (looked iMaxArrayLen t)).length := by
  rw [counted]
  split
  · exact Nat.zero_le _
  · exact Nat.le_refl _

/-- No more elements than passes are looked at. -/
theorem length_looked_le {iMaxArrayLen : Nat} (hpos : 0 < iMaxArrayLen) (t : List UInt8) :
    (looked iMaxArrayLen t).length ≤ iMaxArrayLen := by
  rw [looked]
  split
  · exact List.length_take_le _ _
  · exact hpos

/-- A list that is not overfull is looked at as a whole. -/
theorem looked_eq {iMaxArrayLen : Nat} {t : List UInt8} (h : ¬ Overfull iMaxArrayLen t) :
    looked iMaxArrayLen t = allElements t := by
  rw [looked, allElements]
  split
  · next hopen =>
    have hlen := length_elements (behind (chr '[') t)
    have hcount : ¬ iMaxArrayLen ≤ (behind (chr '[') t).count (chr ',') := fun hle => h ⟨hopen, hle⟩
    exact List.take_of_length_le (by omega)
  · rfl

/-- The counts of the two ways a call returns. -/
theorem counted_cases (iMaxArrayLen : Nat) (t : List UInt8) :
    (Overfull iMaxArrayLen t ∧
        (counted iMaxArrayLen t = 0 ∨ counted iMaxArrayLen t = iMaxArrayLen)) ∨
      (¬ Overfull iMaxArrayLen t ∧ counted iMaxArrayLen t = (shorts (allElements t)).length) := by
  by_cases h : Overfull iMaxArrayLen t
  · refine Or.inl ⟨h, ?_⟩
    rw [counted]
    split
    · exact Or.inl rfl
    · next hall =>
      have heq := Decidable.not_not.mp fun hne => hall ⟨h, hne⟩
      exact Or.inr heq
  · refine Or.inr ⟨h, ?_⟩
    rw [counted, if_neg (fun hc : Overfull iMaxArrayLen t ∧ _ => h hc.1), looked_eq h]

end loop

end NetCamera
