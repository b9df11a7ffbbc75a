import CUtils.StringEx.Model
import Mathlib.Data.List.TakeWhile
import Mathlib.Data.Int.Order.Basic

/-!
# Decimal numbers

`StrToInt` looks at the first character, leaves the rest to `strtol` and then looks whether that has
stopped at the end. The end it compares with is that of the C string: what stands behind a zero byte
is not seen. So the strings it accepts are those whose part in front of the first zero is a decimal
`int`, which are the decimal `int`s when there is no zero (`strToInt_iff`).
-/

namespace CUtils.StringEx

/-! ## The C library -/

/-- `isspace`. -/
def isSpace (ch : UInt8) : Bool := ch == 0x20 || (0x09 ≤ ch && ch ≤ 0x0D)

/-- `isdigit`. -/
def isDigit (ch : UInt8) : Bool := 0x30 ≤ ch && ch ≤ 0x39

/-- What a C string function reads of the string. -/
def cStr (str : Str) : Str := str.takeWhile (· != 0)

/-- The number that digits stand for. -/
def numeral (digits : Str) : Nat := digits.foldl (fun n ch => 10 * n + (ch.toNat - 0x30)) 0

def longMin : Int := -9223372036854775808
def longMax : Int := 9223372036854775807

/-- What `strtol` returns, where `end` points to, and whether `errno` is `ERANGE`. -/
structure Strtol where
  result : Int
  stop : Nat
  erange : Bool

/-- `strtol(addr, &end, 10)`: blanks, a sign, digits. A number that is no `long` gives the nearest
one, and without a digit nothing is read. -/
def strtol (addr : Str) : Strtol :=
  let blanks := (addr.takeWhile isSpace).length
  let rest := addr.drop blanks
  let negative := rest.head? == some 0x2D
  let sign := if negative || rest.head? == some 0x2B then 1 else 0
  let digits := (rest.drop sign).takeWhile isDigit
  if digits = [] then ⟨0, 0, false⟩
  else
    let number := if negative then -(numeral digits : Int) else numeral digits
    ⟨max longMin (min longMax number), blanks + sign + digits.length,
      number < longMin || longMax < number⟩

/-! ## `StrToInt` -/

def intMin : Int := -2147483648
def intMax : Int := 2147483647

/-- The result, and what `value` holds then. -/
def strToInt (str : Str) (value : Int32) : Bool × Int32 :=
  match str with
  | [] => (false, value)
  | front :: _ =>
      if !isDigit front && front != 0x2D then (false, value)
      else
        let r := strtol (cStr str)
        if r.stop = 0 ∨ (cStr str).getD r.stop 0 ≠ 0 ∨ r.erange = true ∨ r.result > intMax ∨
            r.result < intMin then
          (false, value)
        else (true, Int32.ofInt r.result)

/-! ## Decimal numbers -/

/-- One digit or more. -/
def Digits (str : Str) : Prop := str ≠ [] ∧ str.all isDigit = true

instance (str : Str) : Decidable (Digits str) := inferInstanceAs (Decidable (_ ∧ _))

/-- The number that a string of the form `-?[0-9]+` stands for. -/
def decimalValue (str : Str) : Option Int :=
  if str.head? = some 0x2D then
    if Digits str.tail then some (-(numeral str.tail : Int)) else none
  else if Digits str then some (numeral str)
  else none

/-- A number between `INT_MIN` and `INT_MAX`. -/
def IsInt (n : Int) : Prop := intMin ≤ n ∧ n ≤ intMax

instance (n : Int) : Decidable (IsInt n) := inferInstanceAs (Decidable (_ ∧ _))

/-- What may come first. -/
def Front (ch : UInt8) : Prop := isDigit ch = true ∨ ch = 0x2D

/-- The length of the sign. -/
def signLen (str : Str) : Nat := if str.head? = some 0x2D then 1 else 0

/-- The number with the sign of the string. -/
def signed (str digits : Str) : Int :=
  if str.head? = some 0x2D then -(numeral digits : Int) else numeral digits

theorem decimalValue_eq (str : Str) :
    decimalValue str =
      if Digits (str.drop (signLen str)) then some (signed str (str.drop (signLen str)))
      else none := by
  rw [decimalValue, signLen, signed]
  split
  · rw [← List.drop_one]
  · rfl

theorem Front.not_isSpace {ch : UInt8} (h : Front ch) : isSpace ch = false := by
  rcases h with h | rfl
  · simp only [isDigit, Bool.and_eq_true, decide_eq_true_eq] at h
    simp only [isSpace, Bool.or_eq_false_iff, Bool.and_eq_false_iff, beq_eq_false_iff_ne,
      decide_eq_false_iff_not]
    grind
  · rfl

theorem Front.ne_plus {ch : UInt8} (h : Front ch) : ch ≠ 0x2B := by
  rcases h with h | rfl
  · rintro rfl
    cases h
  · decide

/-- Behind a digit or a minus, `strtol` reads that sign and the digits. -/
theorem strtol_eq {front : UInt8} (h : Front front) (rest : Str) :
    let addr := front :: rest
    let digits := (addr.drop (signLen addr)).takeWhile isDigit
    strtol addr =
      if digits = [] then ⟨0, 0, false⟩
      else
        ⟨max longMin (min longMax (signed addr digits)), signLen addr + digits.length,
          signed addr digits < longMin || longMax < signed addr digits⟩ := by
  intro addr digits
  have hblanks : addr.takeWhile isSpace = [] := List.takeWhile_cons_of_neg (by simp [h.not_isSpace])
  have hplus : (addr.head? == some 0x2B) = false := by simpa [addr] using h.ne_plus
  have hsign : (if addr.head? == some 0x2D then 1 else 0) = signLen addr := by
    simp only [signLen, beq_iff_eq]
  have hnumber : (if addr.head? == some 0x2D then -(numeral digits : Int) else numeral digits) =
      signed addr digits := by
    simp only [signed, beq_iff_eq]
  simp only [strtol, hblanks, List.length_nil, List.drop_zero, hplus, Bool.or_false, hsign,
    Nat.zero_add]
  rw [← hnumber]

/-- Where reading has stopped the string is over, or not all of it is digits. -/
theorem getD_takeWhile {l : Str} (h : 0 ∉ l) (p : UInt8 → Bool) :
    l.getD (l.takeWhile p).length 0 = 0 ↔ l.all p = true := by
  induction l with
  | nil => simp
  | cons ch l ih =>
      rw [List.mem_cons, not_or] at h
      obtain ⟨hch, hl⟩ := h
      rw [List.takeWhile_cons]
      split
      · rename_i hp
        simpa [hp] using ih hl
      · rename_i hp
        simpa [hp] using Ne.symm hch

theorem not_mem_cStr (str : Str) : 0 ∉ cStr str := by
  intro h
  have hne := List.all_eq_true.1 (List.all_takeWhile (p := (· != 0)) (l := str)) 0 h
  simp at hne

theorem cStr_of_not_mem {str : Str} (h : 0 ∉ str) : cStr str = str := by
  rw [cStr, List.takeWhile_eq_self_iff]
  intro ch hch
  rw [bne_iff_ne]
  rintro rfl
  exact h hch

/-- The checks behind `strtol` pass exactly when the number is an `int`. -/
theorem isInt_iff (n : Int) :
    ¬ ((n < longMin || longMax < n) = true ∨ max longMin (min longMax n) > intMax ∨
      max longMin (min longMax n) < intMin) ↔ IsInt n := by
  rw [Bool.or_eq_true, decide_eq_true_eq, decide_eq_true_eq]
  simp only [IsInt, longMin, longMax, intMin, intMax]
  omega

theorem IsInt.clamp {n : Int} (h : IsInt n) : max longMin (min longMax n) = n := by
  simp only [IsInt, intMin, intMax] at h
  simp only [longMin, longMax]
  omega

/-! ## What is accepted -/

/-- What is returned when the string stands for that number, or for none. -/
def answer (value : Int32) : Option Int → Bool × Int32
  | some n => if IsInt n then (true, Int32.ofInt n) else (false, value)
  | none => (false, value)

/-- A first character that is neither a digit nor a minus begins no number. -/
theorem decimalValue_none {front : UInt8} (h : ¬ Front front) (rest : Str) :
    decimalValue (cStr (front :: rest)) = none := by
  rw [Front, not_or] at h
  rw [cStr, List.takeWhile_cons]
  split
  · have hsign : ∀ rest, signLen (front :: rest) = 0 := fun rest => if_neg (by simpa using h.2)
    rw [decimalValue_eq, hsign, List.drop_zero, if_neg]
    rintro ⟨-, hall⟩
    rw [List.all_cons, Bool.and_eq_true] at hall
    exact h.1 hall.1
  · rfl

/-- What the checks behind `strtol` make of the digits it has read. -/
theorem checks_eq {addr : Str} (hzero : 0 ∉ addr) (value : Int32) {r : Strtol}
    (hr : r =
      let digits := (addr.drop (signLen addr)).takeWhile isDigit
      if digits = [] then ⟨0, 0, false⟩
      else
        ⟨max longMin (min longMax (signed addr digits)), signLen addr + digits.length,
          signed addr digits < longMin || longMax < signed addr digits⟩) :
    (if r.stop = 0 ∨ addr.getD r.stop 0 ≠ 0 ∨ r.erange = true ∨ r.result > intMax ∨
        r.result < intMin then
      (false, value)
    else (true, Int32.ofInt r.result)) = answer value (decimalValue addr) := by
  rw [decimalValue_eq]
  have hread : ∀ k, addr.getD (signLen addr + k) 0 = (addr.drop (signLen addr)).getD k 0 := by
    intro k
    rw [List.getD_eq_getElem?_getD, List.getD_eq_getElem?_getD, List.getElem?_drop]
  generalize hbody : addr.drop (signLen addr) = body at hr hread ⊢
  have hbodyZero : 0 ∉ body := fun h => hzero (List.mem_of_mem_drop (hbody ▸ h))
  have hend := getD_takeWhile hbodyZero isDigit
  simp only at hr
  by_cases hdigits : Digits body
  · -- all of it has been read: the range decides
    have hall : body.takeWhile isDigit = body :=
      List.takeWhile_eq_self_iff.2 (List.all_eq_true.1 hdigits.2)
    have hpos := List.length_pos_iff.2 hdigits.1
    rw [hall, if_neg hdigits.1] at hr
    rw [hall] at hend
    have hstop : ¬ (signLen addr + body.length = 0) := by omega
    have hlast : ¬ (addr.getD (signLen addr + body.length) 0 ≠ 0) := by
      rw [hread, hend.2 hdigits.2]
      simp
    rw [hr, if_pos hdigits, answer]
    simp only [hstop, hlast, false_or]
    by_cases hint : IsInt (signed addr body)
    · rw [if_neg ((isInt_iff _).2 hint), if_pos hint, hint.clamp]
    · rw [if_pos (not_not.1 (mt (isInt_iff _).1 hint)), if_neg hint]
  · rw [if_neg hdigits, answer, if_pos]
    by_cases hnone : body.takeWhile isDigit = []
    · rw [hr, if_pos hnone]
      exact .inl rfl
    · rw [hr, if_neg hnone]
      refine .inr (.inl ?_)
      rw [hread]
      intro hover
      refine hdigits ⟨?_, hend.1 hover⟩
      rintro rfl
      exact hnone rfl

/-- **What `StrToInt` does**: it reads the C string. -/
theorem strToInt_eq (str : Str) (value : Int32) :
    strToInt str value = answer value (decimalValue (cStr str)) := by
  cases str with
  | nil => rfl
  | cons front rest =>
      by_cases hfront : Front front
      · have hguard : (!isDigit front && front != 0x2D) = false := by
          rcases hfront with h | rfl
          · simp [h]
          · rfl
        have hzero : (front != 0) = true := by
          rcases hfront with h | rfl
          · rw [bne_iff_ne]
            rintro rfl
            cases h
          · rfl
        have hcStr : cStr (front :: rest) = front :: cStr rest := by
          rw [cStr, List.takeWhile_cons, if_pos hzero]
          rfl
        have hnot := not_mem_cStr (front :: rest)
        simp only [strToInt, hguard, Bool.false_eq_true, if_false]
        rw [hcStr] at hnot ⊢
        generalize haddr : front :: cStr rest = addr at hnot ⊢
        have hstrtol := strtol_eq hfront (cStr rest)
        rw [haddr] at hstrtol
        exact checks_eq hnot value hstrtol
      · have hguard : (!isDigit front && front != 0x2D) = true := by
          rw [Front, not_or] at hfront
          simpa using hfront
        simp only [strToInt, hguard, if_true]
        rw [decimalValue_none hfront]
        rfl

/-- True exactly for a decimal `int`; then `value` is that number, else it is what it was. -/
def Exact (str : Str) (value : Int32) : Prop :=
  ((strToInt str value).1 = true ↔ ∃ n, decimalValue str = some n ∧ IsInt n) ∧
    (∀ n, decimalValue str = some n → IsInt n → (strToInt str value).2.toInt = n) ∧
    ((¬ ∃ n, decimalValue str = some n ∧ IsInt n) → (strToInt str value).2 = value)

theorem answer_true_iff (value : Int32) (number : Option Int) :
    (answer value number).1 = true ↔ ∃ n, number = some n ∧ IsInt n := by
  cases number with
  | none => simp [answer]
  | some n =>
      rw [answer]
      split
      · rename_i h
        simpa using h
      · rename_i h
        simpa using h

theorem answer_of_not {value : Int32} {number : Option Int}
    (h : ¬ ∃ n, number = some n ∧ IsInt n) : answer value number = (false, value) := by
  cases number with
  | none => rfl
  | some n => exact if_neg fun hn => h ⟨n, rfl, hn⟩

theorem exact_of_not_mem {str : Str} (h : 0 ∉ str) (value : Int32) : Exact str value := by
  rw [Exact, strToInt_eq, cStr_of_not_mem h]
  refine ⟨answer_true_iff value _, fun n hn hint => ?_, fun hnot => by rw [answer_of_not hnot]⟩
  rw [hn, answer, if_pos hint]
  simp only [IsInt, intMin, intMax] at hint
  exact Int32.toInt_ofInt_of_le (by omega) (by omega)

/-- A zero byte is part of no number. -/
theorem decimalValue_zero {str : Str} (h : 0 ∈ str) : decimalValue str = none := by
  have hnot : ∀ body : Str, 0 ∈ body → ¬ Digits body := by
    rintro body hbody ⟨-, hall⟩
    exact absurd (List.all_eq_true.1 hall 0 hbody) (by decide)
  rw [decimalValue]
  split
  · rename_i hminus
    obtain ⟨rest, rfl⟩ := List.head?_eq_some_iff.1 hminus
    rw [if_neg (hnot _ ?_)]
    simpa using h
  · rw [if_neg (hnot _ h)]

/-! ## Decimal rendering -/

/-- The digits of a number. -/
def digitsOf (n : Nat) : Str :=
  if n < 10 then [UInt8.ofNat (0x30 + n)]
  else digitsOf (n / 10) ++ [UInt8.ofNat (0x30 + n % 10)]
termination_by n

/-- `ToString`, which is `std::to_string`. -/
def toString (n : Int) : Str := if n < 0 then 0x2D :: digitsOf n.natAbs else digitsOf n.natAbs

theorem digit_toNat {d : Nat} (h : d < 10) : (UInt8.ofNat (0x30 + d)).toNat = 0x30 + d := by
  rw [UInt8.toNat_ofNat']
  omega

theorem isDigit_digit {d : Nat} (h : d < 10) : isDigit (UInt8.ofNat (0x30 + d)) = true := by
  have hd := digit_toNat h
  simp only [isDigit, Bool.and_eq_true, decide_eq_true_eq, UInt8.le_iff_toNat_le, hd]
  constructor
  · exact Nat.le_add_right _ _
  · change 48 + d ≤ 57
    omega

theorem digits_digitsOf (n : Nat) : Digits (digitsOf n) := by
  induction n using Nat.strong_induction_on with
  | _ n ih =>
      rw [digitsOf]
      split
      · rename_i h
        refine ⟨by simp, ?_⟩
        rw [List.all_cons, isDigit_digit h]
        rfl
      · obtain ⟨-, hall⟩ := ih (n / 10) (by omega)
        refine ⟨by simp, ?_⟩
        rw [List.all_append, List.all_cons, hall, isDigit_digit (Nat.mod_lt n (by omega))]
        rfl

theorem numeral_append (digits : Str) (ch : UInt8) :
    numeral (digits ++ [ch]) = 10 * numeral digits + (ch.toNat - 0x30) := by
  rw [numeral, List.foldl_append]
  rfl

theorem numeral_digitsOf (n : Nat) : numeral (digitsOf n) = n := by
  induction n using Nat.strong_induction_on with
  | _ n ih =>
      rw [digitsOf]
      split
      · rename_i h
        rw [← List.nil_append [_], numeral_append, digit_toNat h]
        simp [numeral]
      · rw [numeral_append, ih (n / 10) (by omega), digit_toNat (Nat.mod_lt n (by omega))]
        omega

theorem decimalValue_toString (n : Int) : decimalValue (toString n) = some n := by
  rw [toString]
  split
  · have hminus : ∀ rest : Str, (0x2D :: rest).head? = some 0x2D := fun _ => rfl
    rw [decimalValue, if_pos (hminus _), List.tail_cons, if_pos (digits_digitsOf _), numeral_digitsOf]
    congr 1
    omega
  · have hdigits := digits_digitsOf n.natAbs
    have hminus : (digitsOf n.natAbs).head? ≠ some 0x2D := by
      intro hhead
      obtain ⟨rest, hrest⟩ := List.head?_eq_some_iff.1 hhead
      exact absurd (List.all_eq_true.1 hdigits.2 0x2D (by simp [hrest])) (by decide)
    rw [decimalValue, if_neg hminus, if_pos hdigits, numeral_digitsOf]
    congr 1
    omega

/-- The rendering of an `int` is read back. -/
theorem strToInt_toString (n value : Int32) : strToInt (toString n.toInt) value = (true, n) := by
  have hzero : 0 ∉ toString n.toInt := by
    intro h
    have hnone := decimalValue_zero h
    rw [decimalValue_toString] at hnone
    cases hnone
  have hint : IsInt n.toInt := by
    have hlt := n.toInt_lt
    have hle := n.le_toInt
    simp only [IsInt, intMin, intMax]
    omega
  rw [strToInt_eq, cStr_of_not_mem hzero, decimalValue_toString, answer, if_pos hint,
    Int32.ofInt_toInt]

/-- **When `StrToInt` accepts exactly the decimal `int`s**: unless a zero byte cuts the string off
behind one. Every rendered `int` is read back. -/
theorem strToInt_iff (str : Str) (value : Int32) :
    (Exact str value ↔ ¬ (0 ∈ str ∧ ∃ n, decimalValue (cStr str) = some n ∧ IsInt n)) ∧
      ∀ n : Int32, strToInt (toString n.toInt) value = (true, n) := by
  refine ⟨?_, fun n => strToInt_toString n value⟩
  by_cases hzero : 0 ∈ str
  · have hnone : ¬ ∃ n, decimalValue str = some n ∧ IsInt n := by
      rintro ⟨n, hn, -⟩
      rw [decimalValue_zero hzero] at hn
      cases hn
    constructor
    · rintro ⟨hiff, -, -⟩ ⟨-, hprefix⟩
      rw [strToInt_eq, answer_true_iff] at hiff
      exact hnone (hiff.1 hprefix)
    · intro hcut
      have hnot : ¬ ∃ n, decimalValue (cStr str) = some n ∧ IsInt n := fun h => hcut ⟨hzero, h⟩
      have hanswer : strToInt str value = (false, value) := by
        rw [strToInt_eq, answer_of_not hnot]
      rw [Exact, hanswer]
      refine ⟨iff_of_false (by simp) hnone, fun n hn hint => absurd ⟨n, hn, hint⟩ hnone,
        fun _ => rfl⟩
  · exact iff_of_true (exact_of_not_mem hzero value) fun h => hzero h.1

/-- `12`, a zero byte and `junk` behind it: accepted, as 12. -/
theorem junk_accepted :
    let str : Str := [0x31, 0x32, 0x00, 0x6A, 0x75, 0x6E, 0x6B]
    decimalValue str = none ∧ strToInt str 7 = (true, 12) := by
  decide +kernel

end CUtils.StringEx
