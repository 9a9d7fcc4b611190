import Mathlib.Data.List.TakeWhile
import Mathlib.Data.Nat.Digits.Lemmas

/-!
# CString

C strings over a byte list: the string at a position runs up to the first NUL,
and a byte past the end of the list reads as NUL.  The functions of `string.h`
and `stdlib.h` take the memory and a position where C takes a pointer, and
return a position where C returns one.

`cstr_drop` and the two `cstr_set_*` lemmas are what a scanner that advances a
pointer and cuts its input by writing NULs needs: the rest of the string does
not notice the cut.
-/

namespace CString

/-! ## Characters and literals -/

/-- The byte of an ASCII character. -/
def chr (c : Char) : UInt8 := c.toNat.toUInt8

/-- The bytes of an ASCII literal, without its terminator. -/
def ascii (cs : List Char) : List UInt8 := cs.map chr

/-! ## Strings in memory -/

/-- The string at `mem + pos`, without its terminator. -/
def cstr (mem : List UInt8) (pos : Nat) : List UInt8 := (mem.drop pos).takeWhile (· != 0)

/-- `strlen(mem + pos)`. -/
def strlen (mem : List UInt8) (pos : Nat) : Nat := (cstr mem pos).length

/-- `strchr(mem + pos, c)`: the first `c` of the string, the terminator being
part of it; `none` is the null pointer. -/
def strchr (mem : List UInt8) (pos : Nat) (c : UInt8) : Option Nat :=
  if c ∈ cstr mem pos ++ [0] then
    some (pos + ((cstr mem pos).takeWhile (· != c)).length)
  else none

/-- `strcmp(s, t) == 0` for two strings that stand alone. -/
def strcmp (s t : List UInt8) : Bool := cstr s 0 == cstr t 0

theorem zero_not_mem_cstr (mem : List UInt8) (pos : Nat) : 0 ∉ cstr mem pos := by
  intro h
  have := List.mem_takeWhile_imp h
  simp at this

theorem takeWhile_drop_of_le {p : UInt8 → Bool} {l : List UInt8} {k : Nat}
    (h : k ≤ (l.takeWhile p).length) : (l.drop k).takeWhile p = (l.takeWhile p).drop k := by
  induction k generalizing l with
  | zero => simp
  | succ k ih =>
      cases l with
      | nil => simp
      | cons a l =>
          by_cases ha : p a = true
          · rw [List.takeWhile_cons, if_pos ha] at h ⊢
            simp only [List.length_cons, Nat.add_le_add_iff_right] at h
            simpa using ih h
          · rw [List.takeWhile_cons, if_neg ha] at h
            simp at h

/-- Advancing inside a string drops its first bytes. -/
theorem cstr_drop {mem : List UInt8} {pos k : Nat} (h : k ≤ strlen mem pos) :
    cstr mem (pos + k) = (cstr mem pos).drop k := by
  rw [cstr, ← List.drop_drop]
  exact takeWhile_drop_of_le h

theorem takeWhile_set_of_le {l : List UInt8} {k : Nat}
    (h : k ≤ (l.takeWhile (· != 0)).length) :
    (l.set k 0).takeWhile (· != 0) = (l.takeWhile (· != 0)).take k := by
  induction k generalizing l with
  | zero => cases l <;> simp
  | succ k ih =>
      cases l with
      | nil => simp
      | cons a l =>
          by_cases ha : (a != 0) = true
          · rw [List.takeWhile_cons, if_pos ha] at h ⊢
            simp only [List.length_cons, Nat.add_le_add_iff_right] at h
            rw [List.set_cons_succ, List.takeWhile_cons, if_pos ha, List.take_succ_cons, ih h]
          · rw [List.takeWhile_cons, if_neg ha] at h
            simp at h

/-- A NUL written inside a string cuts it there. -/
theorem cstr_set_self {mem : List UInt8} {pos k : Nat} (h : k ≤ strlen mem pos) :
    cstr (mem.set (pos + k) 0) pos = (cstr mem pos).take k := by
  rw [cstr, List.drop_set, if_neg (by omega), Nat.add_sub_cancel_left]
  exact takeWhile_set_of_le h

/-- A NUL written before a position does not change the string there. -/
theorem cstr_set_before {mem : List UInt8} {i pos : Nat} (h : i < pos) :
    cstr (mem.set i 0) pos = cstr mem pos := by
  rw [cstr, List.drop_set, if_pos h, cstr]

/-- Bytes before the first NUL are the start of the string. -/
theorem cstr_append {s : List UInt8} (hs : 0 ∉ s) (t : List UInt8) :
    cstr (s ++ t) 0 = s ++ cstr t 0 := by
  simp only [cstr, List.drop_zero]
  induction s with
  | nil => rfl
  | cons a s ih =>
      have ha : (a != 0) = true := by
        simp only [bne_iff_ne, ne_eq]
        exact fun h => hs (h ▸ List.mem_cons_self)
      rw [List.cons_append, List.takeWhile_cons, if_pos ha,
        ih fun h => hs (List.mem_cons_of_mem a h), List.cons_append]

/-- A NUL byte ends the string. -/
@[simp] theorem cstr_zero_cons (t : List UInt8) : cstr (0 :: t) 0 = [] := rfl

@[simp] theorem cstr_nil (pos : Nat) : cstr [] pos = [] := by simp [cstr]

/-- A terminated string reads as itself. -/
theorem cstr_append_zero {s : List UInt8} (hs : 0 ∉ s) (t : List UInt8) :
    cstr (s ++ 0 :: t) 0 = s := by
  rw [cstr_append hs, cstr_zero_cons, List.append_nil]

/-- The string at a position depends on the memory from there on only. -/
theorem cstr_eq_drop (mem : List UInt8) (pos : Nat) : cstr mem pos = cstr (mem.drop pos) 0 := by
  simp [cstr]

/-- The bytes up to the terminator are the string. -/
theorem take_strlen (mem : List UInt8) (pos : Nat) :
    (mem.drop pos).take (strlen mem pos) = cstr mem pos :=
  (List.prefix_iff_eq_take.mp (List.takeWhile_prefix _)).symm

/-- With the terminator inside the memory, the bytes behind the string start with
it. -/
theorem drop_strlen {mem : List UInt8} {pos : Nat} (h : pos + strlen mem pos < mem.length) :
    ∃ t, (mem.drop pos).drop (strlen mem pos) = 0 :: t := by
  have hsplit : cstr mem pos ++ (mem.drop pos).dropWhile (· != 0) = mem.drop pos :=
    List.takeWhile_append_dropWhile
  have hdrop : (mem.drop pos).drop (strlen mem pos) = (mem.drop pos).dropWhile (· != 0) := by
    unfold strlen
    conv_lhs => rw [← hsplit]
    rw [List.drop_left]
  rw [hdrop]
  cases hd : (mem.drop pos).dropWhile (· != 0) with
  | nil =>
      rw [hd, List.append_nil] at hsplit
      have hlen := congrArg List.length hsplit
      rw [List.length_drop, ← strlen] at hlen
      omega
  | cons b t =>
      have hb : ¬ (b != 0) = true := by
        have hhead := List.head_dropWhile_not (· != (0 : UInt8)) (l := mem.drop pos)
          (by rw [hd]; simp)
        simp only [hd, List.head_cons] at hhead
        simp [hhead]
      refine ⟨t, ?_⟩
      simp only [bne_iff_ne, ne_eq, Decidable.not_not] at hb
      rw [hb]

/-- The string together with its terminator. -/
theorem take_strlen_succ {mem : List UInt8} {pos : Nat} (h : pos + strlen mem pos < mem.length) :
    (mem.drop pos).take (strlen mem pos + 1) = cstr mem pos ++ [0] := by
  obtain ⟨t, ht⟩ := drop_strlen h
  rw [List.take_add, take_strlen, ht]
  rfl

/-- A block one byte longer than a text holds the text exactly when it is the
text and its terminator. -/
theorem cstr_eq_iff {l u : List UInt8} (hu : 0 ∉ u) (hlen : l.length = u.length + 1) :
    cstr l 0 = u ↔ l = u ++ [0] := by
  constructor
  · intro h
    have hstr : strlen l 0 = u.length := by rw [strlen, h]
    have htake := take_strlen_succ (show 0 + strlen l 0 < l.length by omega)
    rw [List.drop_zero, hstr, h, ← hlen, List.take_length] at htake
    exact htake
  · intro h
    rw [h, cstr_append_zero hu]

/-! ## strchr -/

/-- `strchr` for the terminator finds the end of the string. -/
theorem strchr_zero (mem : List UInt8) (pos : Nat) :
    strchr mem pos 0 = some (pos + strlen mem pos) := by
  have hall : (cstr mem pos).takeWhile (· != 0) = cstr mem pos := by
    rw [List.takeWhile_eq_self_iff]
    intro b hb
    simp only [bne_iff_ne, ne_eq]
    exact fun h => zero_not_mem_cstr mem pos (h ▸ hb)
  rw [strchr, if_pos (by simp), hall, strlen]

/-- `strchr` for a byte of the string stops at its first occurrence. -/
theorem strchr_of_mem {mem : List UInt8} {pos : Nat} {c : UInt8} (h : c ∈ cstr mem pos) :
    strchr mem pos c = some (pos + ((cstr mem pos).takeWhile (· != c)).length) := by
  rw [strchr, if_pos (List.mem_append_left _ h)]

/-- `strchr` returns the null pointer for a byte that is not in the string. -/
theorem strchr_of_not_mem {mem : List UInt8} {pos : Nat} {c : UInt8} (hc : c ≠ 0)
    (h : c ∉ cstr mem pos) : strchr mem pos c = none := by
  rw [strchr, if_neg]
  simp only [List.mem_append, List.mem_singleton, not_or]
  exact ⟨h, hc⟩

/-- What stands before the first `c` is shorter than the string. -/
theorem length_takeWhile_lt_strlen {mem : List UInt8} {pos : Nat} {c : UInt8}
    (h : c ∈ cstr mem pos) :
    ((cstr mem pos).takeWhile (· != c)).length < strlen mem pos := by
  unfold strlen
  generalize cstr mem pos = s at h
  induction s with
  | nil => simp at h
  | cons a s ih =>
      by_cases ha : a = c
      · subst ha; simp
      · rw [List.takeWhile_cons, if_pos (by simpa using ha)]
        rcases List.mem_cons.mp h with h | h
        · exact absurd h.symm ha
        · simpa using ih h

/-! ## Numbers -/

/-- `isspace` in the C locale. -/
def isspace (b : UInt8) : Bool := b == 0x20 || (0x09 ≤ b && b ≤ 0x0d)

/-- `isdigit`. -/
def isdigit (b : UInt8) : Bool := 0x30 ≤ b && b ≤ 0x39

/-- The value of the leading decimal digits. -/
def digitsVal (s : List UInt8) : Nat :=
  (s.takeWhile isdigit).foldl (fun v b => 10 * v + (b.toNat - 0x30)) 0

/-- `atoi` of a string: white space, an optional sign, digits.  The value is the
mathematical one. -/
def atoiStr (s : List UInt8) : Int :=
  match s.dropWhile isspace with
  | [] => 0
  | b :: rest =>
    if b = chr '-' then - (digitsVal rest : Int)
    else if b = chr '+' then digitsVal rest
    else digitsVal (b :: rest)

/-- `atoi(mem + pos)`. -/
def atoi (mem : List UInt8) (pos : Nat) : Int := atoiStr (cstr mem pos)

/-- The text `sprintf` prints for `%d` of a nonnegative number. -/
def decimal (v : Nat) : List UInt8 :=
  if v = 0 then [0x30] else (Nat.digits 10 v).reverse.map fun d => (0x30 + d).toUInt8

/-- A number below `10 ^ k` prints in at most `k` bytes. -/
theorem length_decimal_le {v k : Nat} (hk : 0 < k) (hv : v < 10 ^ k) :
    (decimal v).length ≤ k := by
  by_cases h0 : v = 0
  · simp only [decimal, if_pos h0, List.length_singleton]
    omega
  · rw [decimal, if_neg h0, List.length_map, List.length_reverse]
    exact (Nat.digits_length_le_iff (by decide) v).mpr hv

/-- A printed number holds no NUL. -/
theorem zero_not_mem_decimal (v : Nat) : 0 ∉ decimal v := by
  by_cases h0 : v = 0
  · simp [decimal, h0]
  · rw [decimal, if_neg h0]
    intro h
    obtain ⟨d, hd, hz⟩ := List.mem_map.mp h
    have hlt : d < 10 := Nat.digits_lt_base (by decide) (List.mem_reverse.mp hd)
    have hnat : ((0x30 + d).toUInt8).toNat = 0x30 + d := by
      simp only [Nat.toUInt8, UInt8.toNat_ofNat']
      omega
    rw [hz] at hnat
    have hzero : (0 : UInt8).toNat = 0 := rfl
    omega

/-! ## Numbers as texts -/

/-- A decimal number as text: digits, perhaps behind a minus sign. -/
inductive IsDecimal : List UInt8 → Int → Prop where
  | pos {ds : List UInt8} (hne : ds ≠ []) (hds : ∀ b ∈ ds, isdigit b = true) :
      IsDecimal ds (digitsVal ds)
  | neg {ds : List UInt8} (hne : ds ≠ []) (hds : ∀ b ∈ ds, isdigit b = true) :
      IsDecimal (chr '-' :: ds) (- (digitsVal ds : Int))

/-- A digit is no white space and no sign. -/
theorem ne_of_isdigit {b : UInt8} (h : isdigit b = true) :
    isspace b = false ∧ b ≠ chr '-' ∧ b ≠ chr '+' := by
  have hall : ∀ b : Fin 256, isdigit (UInt8.ofNat b) = true → isspace (UInt8.ofNat b) = false ∧
      UInt8.ofNat b ≠ chr '-' ∧ UInt8.ofNat b ≠ chr '+' := by decide +kernel
  have hb : UInt8.ofNat b.toNat = b := UInt8.ofNat_toNat
  have hfin := hall ⟨b.toNat, b.toNat_lt⟩
  simp only [hb] at hfin
  exact hfin h

/-- `atoi` reads a decimal number. -/
theorem atoiStr_of_isDecimal {t : List UInt8} {v : Int} (h : IsDecimal t v) : atoiStr t = v := by
  cases h with
  | pos hne hds =>
      cases t with
      | nil => exact absurd rfl hne
      | cons b t =>
          obtain ⟨hspace, hminus, hplus⟩ := ne_of_isdigit (hds b List.mem_cons_self)
          rw [atoiStr, List.dropWhile_cons, if_neg (by simp [hspace])]
          simp only [if_neg hminus, if_neg hplus]
  | neg hne hds => rfl

/-- Digits from the lowest on, printed from the highest on. -/
theorem digitsVal_map {ds : List Nat} (h : ∀ d ∈ ds, d < 10) :
    (∀ b ∈ ds.reverse.map fun d => (0x30 + d).toUInt8, isdigit b = true) ∧
    digitsVal (ds.reverse.map fun d => (0x30 + d).toUInt8) = Nat.ofDigits 10 ds := by
  have hnat : ∀ d < 10, ((0x30 + d).toUInt8).toNat = 0x30 + d := by
    intro d hd
    simp only [Nat.toUInt8, UInt8.toNat_ofNat']
    omega
  have hdigit : ∀ d ∈ ds, isdigit (0x30 + d).toUInt8 = true := by
    intro d hd
    have hd' := hnat d (h d hd)
    have hlt := h d hd
    simp only [isdigit, Bool.and_eq_true, decide_eq_true_eq, UInt8.le_iff_toNat_le, hd']
    have h30 : (0x30 : UInt8).toNat = 48 := rfl
    have h39 : (0x39 : UInt8).toNat = 57 := rfl
    omega
  have hall : ∀ b ∈ ds.reverse.map fun d => (0x30 + d).toUInt8, isdigit b = true := by
    intro b hb
    obtain ⟨d, hd, rfl⟩ := List.mem_map.mp hb
    exact hdigit d (List.mem_reverse.mp hd)
  refine ⟨hall, ?_⟩
  rw [digitsVal, List.takeWhile_eq_self_iff.mpr hall]
  clear hall hdigit
  induction ds with
  | nil => rfl
  | cons d ds ih =>
      have hd := hnat d (h d List.mem_cons_self)
      rw [List.reverse_cons, List.map_append, List.foldl_append,
        ih fun d hd => h d (List.mem_cons_of_mem _ hd), Nat.ofDigits_cons, List.map_cons,
        List.map_nil, List.foldl_cons, List.foldl_nil, hd]
      omega

/-- A printed number is digits with that value. -/
theorem digits_decimal (n : Nat) : decimal n ≠ [] ∧ (∀ b ∈ decimal n, isdigit b = true) ∧
    digitsVal (decimal n) = n := by
  by_cases h0 : n = 0
  · have hzero : decimal n = [0x30] := by rw [decimal, if_pos h0]
    rw [hzero, h0]
    exact ⟨List.cons_ne_nil _ _, fun b hb => List.mem_singleton.mp hb ▸ rfl, rfl⟩
  · have hlt : ∀ d ∈ Nat.digits 10 n, d < 10 := fun d hd => Nat.digits_lt_base (by decide) hd
    obtain ⟨hdigits, hval⟩ := digitsVal_map hlt
    rw [decimal, if_neg h0]
    refine ⟨?_, hdigits, hval.trans (Nat.ofDigits_digits 10 n)⟩
    simp [Nat.digits_ne_nil_iff_ne_zero, h0]

/-- The text `sprintf` prints for `%d`. -/
def decimalInt (v : Int) : List UInt8 :=
  if v < 0 then chr '-' :: decimal v.natAbs else decimal v.natAbs

theorem isDecimal_decimalInt (v : Int) : IsDecimal (decimalInt v) v := by
  obtain ⟨hne, hdigits, hval⟩ := digits_decimal v.natAbs
  unfold decimalInt
  split
  · next hneg =>
    have hdec := IsDecimal.neg hne hdigits
    rwa [hval, show -(v.natAbs : Int) = v by omega] at hdec
  · next hpos =>
    have hdec := IsDecimal.pos hne hdigits
    rwa [hval, show (v.natAbs : Int) = v by omega] at hdec

/-- Printed numbers are told apart. -/
theorem decimalInt_inj {v w : Int} : decimalInt v = decimalInt w ↔ v = w := by
  refine ⟨fun h => ?_, congrArg decimalInt⟩
  rw [← atoiStr_of_isDecimal (isDecimal_decimalInt v), h,
    atoiStr_of_isDecimal (isDecimal_decimalInt w)]

/-- As many digits bound the value. -/
theorem digitsVal_lt (s : List UInt8) : digitsVal s < 10 ^ s.length := by
  have hfold : ∀ (ds : List UInt8) (v : Nat), (∀ b ∈ ds, isdigit b = true) →
      ds.foldl (fun v b => 10 * v + (b.toNat - 0x30)) v < 10 ^ ds.length * (v + 1) := by
    intro ds
    induction ds with
    | nil => simp
    | cons b ds ih =>
        intro v hds
        have hb : b.toNat - 0x30 ≤ 9 := by
          have hdigit := hds b List.mem_cons_self
          simp only [isdigit, Bool.and_eq_true, decide_eq_true_eq, UInt8.le_iff_toNat_le] at hdigit
          have h39 : (0x39 : UInt8).toNat = 57 := rfl
          omega
        have htail := ih (10 * v + (b.toNat - 0x30)) fun b hb => hds b (List.mem_cons_of_mem _ hb)
        rw [List.foldl_cons, List.length_cons, Nat.pow_succ, Nat.mul_assoc]
        exact Nat.lt_of_lt_of_le htail (Nat.mul_le_mul_left _ (by omega))
  have hlen : (s.takeWhile isdigit).length ≤ s.length := (List.takeWhile_prefix _).length_le
  have hlt := hfold (s.takeWhile isdigit) 0 fun b hb => List.mem_takeWhile_imp hb
  rw [Nat.zero_add, Nat.mul_one] at hlt
  exact Nat.lt_of_lt_of_le hlt (Nat.pow_le_pow_right (by omega) hlen)

/-- A sign costs a digit. -/
theorem atoiStr_bounds {s : List UInt8} {k : Nat} (h : s.length ≤ k + 1) :
    - (10 ^ k : Nat) < atoiStr s ∧ atoiStr s < (10 ^ (k + 1) : Nat) := by
  have hlen : (s.dropWhile isspace).length ≤ s.length := (List.dropWhile_suffix _).length_le
  have hpos : 0 < 10 ^ k := Nat.pow_pos (by omega)
  have hpow : 10 ^ k ≤ 10 ^ (k + 1) := Nat.pow_le_pow_right (by omega) (by omega)
  unfold atoiStr
  cases hs : s.dropWhile isspace with
  | nil =>
      dsimp only
      omega
  | cons b rest =>
      rw [hs, List.length_cons] at hlen
      have hrest := Nat.lt_of_lt_of_le (digitsVal_lt rest)
        (Nat.pow_le_pow_right (by omega) (show rest.length ≤ k by omega))
      have hall := Nat.lt_of_lt_of_le (digitsVal_lt (b :: rest))
        (Nat.pow_le_pow_right (by omega) (show (b :: rest).length ≤ k + 1 by
          rw [List.length_cons]; omega))
      dsimp only
      split
      · omega
      · split
        · omega
        · omega

theorem decimalInt_natCast (n : Nat) : decimalInt n = decimal n := by
  rw [decimalInt, if_neg (by omega), Int.natAbs_natCast]

end CString
