import Mathlib.Data.UInt
import Mathlib.Data.Nat.Bitwise

/-!
# Encodings of text

A text is a list of `Char`, which are the Unicode scalar values. `utf8` is the encoding Lean itself
uses; `utf16` is that of the standard. The rest is arithmetic on bits that encoders and decoders
need: masks are remainders, and setting bits that are clear is an addition.
-/

namespace Utf

/-- The code units of a character in UTF-16. -/
def utf16EncodeChar (c : Char) : List UInt16 :=
  let v := c.val.toNat
  if v < 0x10000 then [UInt16.ofNat v]
  else
    [UInt16.ofNat ((v - 0x10000) / 0x400 + 0xD800), UInt16.ofNat ((v - 0x10000) % 0x400 + 0xDC00)]

def utf8 (text : List Char) : List UInt8 := text.flatMap String.utf8EncodeChar

def utf16 (text : List Char) : List UInt16 := text.flatMap utf16EncodeChar

@[simp] theorem utf8_cons (c : Char) (text : List Char) :
    utf8 (c :: text) = String.utf8EncodeChar c ++ utf8 text := rfl

theorem utf8_append (text text' : List Char) : utf8 (text ++ text') = utf8 text ++ utf8 text' :=
  List.flatMap_append

@[simp] theorem utf16_cons (c : Char) (text : List Char) :
    utf16 (c :: text) = utf16EncodeChar c ++ utf16 text := rfl

/-- A scalar value is below or above the surrogates. -/
theorem char_bounds (c : Char) :
    c.val.toNat < 0xD800 ∨ 0xDFFF < c.val.toNat ∧ c.val.toNat < 0x110000 := c.valid

/-! ## Any units of UTF-16 -/

/-- The first half of a surrogate pair. -/
def IsHigh (u : UInt16) : Prop := 0xD800 ≤ u.toNat ∧ u.toNat < 0xDC00

/-- The second half. -/
def IsLow (u : UInt16) : Prop := 0xDC00 ≤ u.toNat ∧ u.toNat < 0xE000

instance (u : UInt16) : Decidable (IsHigh u) := inferInstanceAs (Decidable (_ ∧ _))

instance (u : UInt16) : Decidable (IsLow u) := inferInstanceAs (Decidable (_ ∧ _))

/-- The character of a pair. -/
def ofPair (u v : UInt16) : Char :=
  Char.ofNat ((u.toNat - 0xD800) * 0x400 + (v.toNat - 0xDC00) + 0x10000)

/-- What a unit alone stands for: nothing, when it is half a pair. -/
def ofUnit (u : UInt16) : List Char := if IsHigh u ∨ IsLow u then [] else [Char.ofNat u.toNat]

/-- The text that units stand for: a first half right in front of a second half makes a character,
and any other half is left out. -/
def scalars : List UInt16 → List Char
  | [] => []
  | [u] => ofUnit u
  | u :: v :: rest =>
      if IsHigh u ∧ IsLow v then ofPair u v :: scalars rest else ofUnit u ++ scalars (v :: rest)

theorem val_ofNat {n : Nat} (h : n < 0xD800 ∨ 0xDFFF < n ∧ n < 0x110000) :
    (Char.ofNat n).val.toNat = n := by
  rw [Char.ofNat, dif_pos h]
  rfl

theorem val_ofPair {u v : UInt16} (hu : IsHigh u) (hv : IsLow v) :
    (ofPair u v).val.toNat = (u.toNat - 0xD800) * 0x400 + (v.toNat - 0xDC00) + 0x10000 := by
  obtain ⟨hu, hu'⟩ := hu
  obtain ⟨hv, hv'⟩ := hv
  exact val_ofNat (by omega)

theorem scalars_unit {u : UInt16} (hhigh : ¬ IsHigh u) (hlow : ¬ IsLow u) (rest : List UInt16) :
    scalars (u :: rest) = Char.ofNat u.toNat :: scalars rest := by
  have hunit : ofUnit u = [Char.ofNat u.toNat] := if_neg (not_or.2 ⟨hhigh, hlow⟩)
  cases rest with
  | nil => exact hunit
  | cons v rest =>
      rw [scalars, if_neg (fun h => hhigh h.1), hunit]
      rfl

/-! ## Well-formed UTF-8 -/

/-- A trailing byte, `10??????`. -/
def IsTrail (b : UInt8) : Prop := 0x80 ≤ b.toNat ∧ b.toNat < 0xC0

/-- The rows of the table of UTF-8: the bytes, the bits in them that are not fixed, and the first
value that the row is for. -/
inductive Row : List UInt8 → Nat → Nat → Prop
  | one {a : UInt8} (ha : a.toNat < 0x80) : Row [a] a.toNat 0
  | two {a b : UInt8} (ha : 0xC0 ≤ a.toNat ∧ a.toNat < 0xE0) (hb : IsTrail b) :
      Row [a, b] (a.toNat % 0x20 * 0x40 + b.toNat % 0x40) 0x80
  | three {a b c : UInt8} (ha : 0xE0 ≤ a.toNat ∧ a.toNat < 0xF0) (hb : IsTrail b) (hc : IsTrail c) :
      Row [a, b, c] ((a.toNat % 0x10 * 0x40 + b.toNat % 0x40) * 0x40 + c.toNat % 0x40) 0x800
  | four {a b c d : UInt8} (ha : 0xF0 ≤ a.toNat ∧ a.toNat < 0xF8) (hb : IsTrail b) (hc : IsTrail c)
      (hd : IsTrail d) :
      Row [a, b, c, d]
        (((a.toNat % 8 * 0x40 + b.toNat % 0x40) * 0x40 + c.toNat % 0x40) * 0x40 + d.toNat % 0x40)
        0x10000

/-- Bytes made of characters of the table: none of them overlong, a surrogate, or above the last code
point. -/
inductive WellFormed : List UInt8 → Prop
  | nil : WellFormed []
  | char {bytes rest : List UInt8} {v least : Nat} (hrow : Row bytes v least) (hleast : least ≤ v)
      (hsurrogate : v < 0xD800 ∨ 0xDFFF < v) (hmax : v ≤ 0x10FFFF) (hrest : WellFormed rest) :
      WellFormed (bytes ++ rest)

theorem ofNat_eq {n : Nat} {a : UInt8} (h : n = a.toNat) : UInt8.ofNat n = a := by
  rw [h, UInt8.ofNat_toNat]

/-- The bytes of a row are the encoding of their value. -/
theorem Row.encode {bytes : List UInt8} {v least : Nat} (h : Row bytes v least) (hleast : least ≤ v)
    (hsurrogate : v < 0xD800 ∨ 0xDFFF < v) (hmax : v ≤ 0x10FFFF) :
    String.utf8EncodeChar (Char.ofNat v) = bytes := by
  have hval : (Char.ofNat v).val.toNat = v := val_ofNat (by omega)
  rw [String.utf8EncodeChar, hval]
  cases h with
  | @one a ha =>
      rw [if_pos (by omega)]
      exact List.cons_eq_cons.2 ⟨ofNat_eq rfl, rfl⟩
  | @two a b ha hb =>
      obtain ⟨hb, hb'⟩ := hb
      rw [if_neg (by omega), if_pos (by omega)]
      refine List.cons_eq_cons.2 ⟨ofNat_eq (by omega), ?_⟩
      exact List.cons_eq_cons.2 ⟨ofNat_eq (by omega), rfl⟩
  | @three a b c ha hb hc =>
      obtain ⟨hb, hb'⟩ := hb
      obtain ⟨hc, hc'⟩ := hc
      rw [if_neg (by omega), if_neg (by omega), if_pos (by omega)]
      refine List.cons_eq_cons.2 ⟨ofNat_eq (by omega), ?_⟩
      refine List.cons_eq_cons.2 ⟨ofNat_eq (by omega), ?_⟩
      exact List.cons_eq_cons.2 ⟨ofNat_eq (by omega), rfl⟩
  | @four a b c d ha hb hc hd =>
      obtain ⟨hb, hb'⟩ := hb
      obtain ⟨hc, hc'⟩ := hc
      obtain ⟨hd, hd'⟩ := hd
      rw [if_neg (by omega), if_neg (by omega), if_neg (by omega)]
      refine List.cons_eq_cons.2 ⟨ofNat_eq (by omega), ?_⟩
      refine List.cons_eq_cons.2 ⟨ofNat_eq (by omega), ?_⟩
      refine List.cons_eq_cons.2 ⟨ofNat_eq (by omega), ?_⟩
      exact List.cons_eq_cons.2 ⟨ofNat_eq (by omega), rfl⟩

theorem isTrail_ofNat (n : Nat) : IsTrail (UInt8.ofNat (n % 0x40 + 0x80)) := by
  rw [IsTrail, UInt8.toNat_ofNat']
  omega

/-- The encoding of a character is a row of the table, for the value of the character. -/
theorem exists_row (c : Char) :
    ∃ least, Row (String.utf8EncodeChar c) c.val.toNat least ∧ least ≤ c.val.toNat := by
  have hbounds := char_bounds c
  have hbyte : ∀ n, n < 256 → (UInt8.ofNat n).toNat = n := fun n hn => by
    rw [UInt8.toNat_ofNat', Nat.mod_eq_of_lt hn]
  rw [String.utf8EncodeChar]
  generalize c.val.toNat = v at hbounds ⊢
  split
  · have hrow := Row.one (a := UInt8.ofNat v) (by rw [hbyte v (by omega)]; omega)
    rw [hbyte v (by omega)] at hrow
    exact ⟨0, hrow, Nat.zero_le _⟩
  · split
    · have hlead := hbyte (v / 64 % 32 + 192) (by omega)
      have hrow := Row.two (a := UInt8.ofNat (v / 64 % 32 + 192)) (by omega) (isTrail_ofNat v)
      rw [hlead, hbyte (v % 0x40 + 0x80) (by omega)] at hrow
      refine ⟨0x80, ?_, by omega⟩
      convert hrow using 1
      omega
    · split
      · have hlead := hbyte (v / 4096 % 16 + 224) (by omega)
        have hrow := Row.three (a := UInt8.ofNat (v / 4096 % 16 + 224)) (by omega)
          (isTrail_ofNat (v / 64)) (isTrail_ofNat v)
        rw [hlead, hbyte (v / 64 % 0x40 + 0x80) (by omega), hbyte (v % 0x40 + 0x80) (by omega)] at hrow
        refine ⟨0x800, ?_, by omega⟩
        convert hrow using 1
        omega
      · have hlead := hbyte (v / 262144 % 8 + 240) (by omega)
        have hrow := Row.four (a := UInt8.ofNat (v / 262144 % 8 + 240)) (by omega)
          (isTrail_ofNat (v / 4096)) (isTrail_ofNat (v / 64)) (isTrail_ofNat v)
        rw [hlead, hbyte (v / 4096 % 0x40 + 0x80) (by omega), hbyte (v / 64 % 0x40 + 0x80) (by omega),
          hbyte (v % 0x40 + 0x80) (by omega)] at hrow
        refine ⟨0x10000, ?_, by omega⟩
        convert hrow using 1
        omega

/-- **Well-formed bytes** are the encodings of texts. -/
theorem wellFormed_iff (bytes : List UInt8) : WellFormed bytes ↔ ∃ text, bytes = utf8 text := by
  constructor
  · intro h
    induction h with
    | nil => exact ⟨[], rfl⟩
    | @char bytes rest v least hrow hleast hsurrogate hmax _ ih =>
        obtain ⟨text, rfl⟩ := ih
        exact ⟨Char.ofNat v :: text, by rw [utf8_cons, hrow.encode hleast hsurrogate hmax]⟩
  · rintro ⟨text, rfl⟩
    induction text with
    | nil => exact .nil
    | cons c text ih =>
        obtain ⟨least, hrow, hleast⟩ := exists_row c
        have hbounds := char_bounds c
        rw [utf8_cons]
        exact .char hrow hleast (by omega) (by omega) ih

/-! ## Bits -/

theorem and_mask {n k : Nat} : n &&& (2 ^ k - 1) = n % 2 ^ k := Nat.and_two_pow_sub_one_eq_mod n k

/-- Bits from `k` on, set in a number below `2 ^ k`. -/
theorem or_of_lt {n k : Nat} (m : Nat) (h : n < 2 ^ k) : n ||| m * 2 ^ k = n + m * 2 ^ k := by
  rw [← Nat.shiftLeft_eq, Nat.lor_comm, ← Nat.shiftLeft_add_eq_or_of_lt h, Nat.add_comm]

/-- The bits from `k` on. -/
theorem and_high {n k m : Nat} (h : n / 2 ^ k < 2 ^ m) :
    n &&& (2 ^ m - 1) * 2 ^ k = n / 2 ^ k * 2 ^ k := by
  apply Nat.eq_of_testBit_eq
  intro i
  simp only [Nat.testBit_and, Nat.testBit_mul_two_pow, Nat.testBit_two_pow_sub_one,
    Nat.testBit_div_two_pow]
  by_cases hi : k ≤ i
  · have hsub : i - k + k = i := Nat.sub_add_cancel hi
    simp only [hi, decide_true, Bool.true_and, hsub]
    by_cases hm : i - k < m
    · simp [hm]
    · have hlt : n / 2 ^ k < 2 ^ (i - k) :=
        h.trans_le (Nat.pow_le_pow_right (by decide) (Nat.le_of_not_lt hm))
      have hzero : (n / 2 ^ k).testBit (i - k) = false := Nat.testBit_lt_two_pow hlt
      rw [Nat.testBit_div_two_pow, hsub] at hzero
      simp [hzero]
  · simp [hi]

end Utf
