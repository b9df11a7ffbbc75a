import CUtils.Unicode.Convert
import CUtils.Lib.Utf

/-!
# One character

What the functions for one code point do with a scalar value: the bytes written are those of its
encoding, the table of lengths knows its first byte, and the bytes and the units are put together
again to the value they came from.
-/

namespace CUtils.Unicode

open Utf

/-! ## Writing UTF-8 -/

theorem continuation_eq (x : UInt32) :
    ((x ||| 0x80) &&& 0xBF).toUInt8 = UInt8.ofNat (x.toNat % 0x40 + 0x80) := by
  have hbyte : ∀ n < 256, (n ||| 0x80) &&& 0xBF = n % 0x40 + 0x80 := by decide +kernel
  have hlow := hbyte (x.toNat % 256) (Nat.mod_lt _ (by decide))
  rw [Nat.mod_mod_of_dvd _ (by decide)] at hlow
  have hcut : ((x.toNat ||| 0x80) &&& 0xBF) % 2 ^ 8 = (x.toNat % 2 ^ 8 ||| 0x80) &&& 0xBF := by
    rw [Nat.and_mod_two_pow, Nat.or_mod_two_pow]
  apply UInt8.toNat_inj.1
  rw [UInt32.toNat_toUInt8, UInt32.toNat_and, UInt32.toNat_or, UInt8.toNat_ofNat']
  refine hcut.trans (hlow.trans ?_)
  omega

theorem lead_eq {x mark : UInt32} {k m : Nat} (hx : x.toNat < 2 ^ k)
    (hmark : mark.toNat = m * 2 ^ k) :
    (x ||| mark).toUInt8 = UInt8.ofNat (x.toNat % 2 ^ k + m * 2 ^ k) := by
  apply UInt8.toNat_inj.1
  rw [UInt32.toNat_toUInt8, UInt32.toNat_or, hmark, or_of_lt m hx, UInt8.toNat_ofNat',
    Nat.mod_eq_of_lt hx]

theorem shift_toNat (x : UInt32) : (x >>> 6).toNat = x.toNat / 64 := by
  rw [UInt32.toNat_shiftRight]
  exact Nat.shiftRight_eq_div_pow x.toNat 6

theorem utf32CodePointUtf8Length_char (c : Char) :
    utf32CodePointUtf8Length c.val = (String.utf8EncodeChar c).length := by
  have hbounds := char_bounds c
  have hlt : ∀ n < 2 ^ 32, (c.val < UInt32.ofNat n ↔ c.val.toNat < n) := fun n hn => by
    rw [UInt32.lt_iff_toNat_lt, UInt32.toNat_ofNat', Nat.mod_eq_of_lt hn]
  have h80 : c.val < 0x80 ↔ c.val.toNat < 0x80 := hlt 0x80 (by decide)
  have h800 : c.val < 0x800 ↔ c.val.toNat < 0x800 := hlt 0x800 (by decide)
  have h10000 : c.val < 0x10000 ↔ c.val.toNat < 0x10000 := hlt 0x10000 (by decide)
  have hD800 : c.val < 0xD800 ↔ c.val.toNat < 0xD800 := hlt 0xD800 (by decide)
  have hDFFF : c.val > 0xDFFF ↔ 0xDFFF < c.val.toNat := UInt32.lt_iff_toNat_lt
  have h10FFFF : c.val ≤ 0x10FFFF ↔ c.val.toNat ≤ 0x10FFFF := UInt32.le_iff_toNat_le
  unfold utf32CodePointUtf8Length String.utf8EncodeChar
  simp only [h80, h800, h10000, hD800, hDFFF, h10FFFF]
  set v := c.val.toNat
  by_cases h1 : v ≤ 0x7f
  · rw [if_pos (by omega), if_pos h1]
    rfl
  · rw [if_neg (by omega), if_neg h1]
    by_cases h2 : v ≤ 0x7ff
    · rw [if_pos (by omega), if_pos h2]
      rfl
    · rw [if_neg (by omega), if_neg h2]
      by_cases h3 : v ≤ 0xffff
      · rw [if_pos (by omega), if_pos (by omega), if_pos h3]
        rfl
      · rw [if_neg (by omega), if_pos (by omega), if_neg h3]
        rfl

/-- **The bytes of a character.** -/
theorem utf32CodePointToUtf8_char (c : Char) :
    utf32CodePointToUtf8 c.val (String.utf8EncodeChar c).length = String.utf8EncodeChar c := by
  have hbounds := char_bounds c
  have hshift1 := shift_toNat c.val
  have hshift2 := shift_toNat (c.val >>> 6)
  have hshift3 := shift_toNat (c.val >>> 6 >>> 6)
  rw [hshift1, Nat.div_div_eq_div_mul] at hshift2
  rw [hshift2, Nat.div_div_eq_div_mul] at hshift3
  unfold String.utf8EncodeChar
  simp only
  by_cases h1 : c.val.toNat ≤ 0x7f
  · rw [if_pos h1]
    show [(c.val ||| 0).toUInt8] = _
    rw [UInt32.or_zero]
    rfl
  · rw [if_neg h1]
    by_cases h2 : c.val.toNat ≤ 0x7ff
    · rw [if_pos h2]
      show [(c.val >>> 6 ||| 0xC0).toUInt8, ((c.val ||| 0x80) &&& 0xBF).toUInt8] = _
      rw [continuation_eq, lead_eq (k := 5) (m := 6) (by omega) (by decide), hshift1]
      rfl
    · rw [if_neg h2]
      by_cases h3 : c.val.toNat ≤ 0xffff
      · rw [if_pos h3]
        show [(c.val >>> 6 >>> 6 ||| 0xE0).toUInt8, ((c.val >>> 6 ||| 0x80) &&& 0xBF).toUInt8,
          ((c.val ||| 0x80) &&& 0xBF).toUInt8] = _
        rw [continuation_eq, continuation_eq, lead_eq (k := 4) (m := 14) (by omega) (by decide),
          hshift2, hshift1]
        rfl
      · rw [if_neg h3]
        show [(c.val >>> 6 >>> 6 >>> 6 ||| 0xF0).toUInt8,
          ((c.val >>> 6 >>> 6 ||| 0x80) &&& 0xBF).toUInt8,
          ((c.val >>> 6 ||| 0x80) &&& 0xBF).toUInt8, ((c.val ||| 0x80) &&& 0xBF).toUInt8] = _
        rw [continuation_eq, continuation_eq, continuation_eq,
          lead_eq (k := 3) (m := 30) (by omega) (by decide), hshift3, hshift2, hshift1]
        rfl

/-! ## Reading UTF-8 -/

/-- The packed table, written out. -/
theorem utf8CodePointLen_ofNat : ∀ n < 256, utf8CodePointLen (UInt8.ofNat n) =
    if n < 0xC0 then 1 else if n < 0xE0 then 2 else if n < 0xF0 then 3 else 4 := by
  decide +kernel

theorem toNat_utf8ShiftAndMask {codePoint : UInt32} (h : codePoint.toNat < 2 ^ 26) (byte : UInt8) :
    (utf8ShiftAndMask codePoint byte).toNat = codePoint.toNat * 64 + byte.toNat % 64 := by
  have hmask : 0x3F &&& byte.toNat = byte.toNat % 64 := by
    rw [Nat.land_comm]
    exact and_mask (k := 6)
  unfold utf8ShiftAndMask
  rw [UInt32.toNat_or, UInt32.toNat_and, UInt32.toNat_shiftLeft, UInt8.toNat_toUInt32]
  show codePoint.toNat <<< 6 % 2 ^ 32 ||| (0x3F &&& byte.toNat) = _
  rw [hmask, Nat.shiftLeft_eq, Nat.mod_eq_of_lt (by omega), Nat.lor_comm,
    or_of_lt (k := 6) (n := byte.toNat % 64) _ (Nat.mod_lt _ (by decide)), Nat.add_comm]
  rfl

/-- The bits of a first byte that belong to the code point. -/
theorem toNat_lead (byte : UInt8) {mask : UInt32} (k : Nat) (hmask : mask.toNat = 2 ^ k - 1) :
    (byte.toUInt32 &&& mask).toNat = byte.toNat % 2 ^ k := by
  rw [UInt32.toNat_and, UInt8.toNat_toUInt32, hmask, and_mask]

theorem toNat_byte {n : Nat} (h : n < 256) : (UInt8.ofNat n).toNat = n := by
  rw [UInt8.toNat_ofNat', Nat.mod_eq_of_lt h]

theorem decode_one {a : UInt8} (h : a.toNat < 0x80) (rest : List UInt8) :
    (utf8ToUtf32CodePoint (a :: rest) 1).toNat = a.toNat := by
  have hsigned : ∀ n < 0x80, (UInt8.ofNat n).toInt8.toInt32.toUInt32.toNat = n := by decide +kernel
  have ha := hsigned a.toNat h
  rw [UInt8.ofNat_toNat] at ha
  exact ha

theorem decode_two (a b : UInt8) (rest : List UInt8) :
    (utf8ToUtf32CodePoint (a :: b :: rest) 2).toNat = a.toNat % 32 * 64 + b.toNat % 64 := by
  have hlead : (a.toUInt32 &&& 0x1f).toNat = a.toNat % 32 := toNat_lead a 5 rfl
  show (utf8ShiftAndMask (a.toUInt32 &&& 0x1f) b).toNat = _
  rw [toNat_utf8ShiftAndMask (by omega), hlead]

theorem decode_three (a b c : UInt8) (rest : List UInt8) :
    (utf8ToUtf32CodePoint (a :: b :: c :: rest) 3).toNat =
      (a.toNat % 16 * 64 + b.toNat % 64) * 64 + c.toNat % 64 := by
  have hlead : (a.toUInt32 &&& 0x0f).toNat = a.toNat % 16 := toNat_lead a 4 rfl
  have hlt : (a.toUInt32 &&& 0x0f).toNat < 2 ^ 26 := by omega
  have hfirst := toNat_utf8ShiftAndMask hlt b
  show (utf8ShiftAndMask (utf8ShiftAndMask (a.toUInt32 &&& 0x0f) b) c).toNat = _
  rw [toNat_utf8ShiftAndMask (by omega), hfirst, hlead]

theorem decode_four (a b c d : UInt8) (rest : List UInt8) :
    (utf8ToUtf32CodePoint (a :: b :: c :: d :: rest) 4).toNat =
      ((a.toNat % 8 * 64 + b.toNat % 64) * 64 + c.toNat % 64) * 64 + d.toNat % 64 := by
  have hlead : (a.toUInt32 &&& 0x07).toNat = a.toNat % 8 := toNat_lead a 3 rfl
  have hlt : (a.toUInt32 &&& 0x07).toNat < 2 ^ 26 := by omega
  have hfirst := toNat_utf8ShiftAndMask hlt b
  have hlt' : (utf8ShiftAndMask (a.toUInt32 &&& 0x07) b).toNat < 2 ^ 26 := by omega
  have hsecond := toNat_utf8ShiftAndMask hlt' c
  show (utf8ShiftAndMask (utf8ShiftAndMask (utf8ShiftAndMask (a.toUInt32 &&& 0x07) b) c) d).toNat = _
  rw [toNat_utf8ShiftAndMask (by omega), hsecond, hfirst, hlead]

/-- **The value of the bytes.** -/
theorem utf8_decode_char (c : Char) (rest : List UInt8) :
    ∃ b tail, String.utf8EncodeChar c = b :: tail ∧
      utf8CodePointLen b = (b :: tail).length ∧
      utf8ToUtf32CodePoint (b :: (tail ++ rest)) (b :: tail).length = c.val := by
  have hbounds := char_bounds c
  unfold String.utf8EncodeChar
  simp only
  by_cases h1 : c.val.toNat ≤ 0x7f
  · rw [if_pos h1]
    refine ⟨_, _, rfl, ?_, ?_⟩
    · rw [utf8CodePointLen_ofNat _ (by omega), if_pos (by omega)]
      rfl
    · apply UInt32.toNat_inj.1
      have hbyte := toNat_byte (n := c.val.toNat) (by omega)
      exact (decode_one (by omega) _).trans hbyte
  · rw [if_neg h1]
    by_cases h2 : c.val.toNat ≤ 0x7ff
    · rw [if_pos h2]
      refine ⟨_, _, rfl, ?_, ?_⟩
      · rw [utf8CodePointLen_ofNat _ (by omega), if_neg (by omega), if_pos (by omega)]
        rfl
      · apply UInt32.toNat_inj.1
        refine (decode_two _ _ _).trans ?_
        rw [toNat_byte (by omega), toNat_byte (by omega)]
        omega
    · rw [if_neg h2]
      by_cases h3 : c.val.toNat ≤ 0xffff
      · rw [if_pos h3]
        refine ⟨_, _, rfl, ?_, ?_⟩
        · rw [utf8CodePointLen_ofNat _ (by omega), if_neg (by omega), if_neg (by omega),
            if_pos (by omega)]
          rfl
        · apply UInt32.toNat_inj.1
          refine (decode_three _ _ _ _).trans ?_
          rw [toNat_byte (by omega), toNat_byte (by omega), toNat_byte (by omega)]
          omega
      · rw [if_neg h3]
        refine ⟨_, _, rfl, ?_, ?_⟩
        · rw [utf8CodePointLen_ofNat _ (by omega), if_neg (by omega), if_neg (by omega),
            if_neg (by omega)]
          rfl
        · apply UInt32.toNat_inj.1
          refine (decode_four _ _ _ _ _).trans ?_
          rw [toNat_byte (by omega), toNat_byte (by omega), toNat_byte (by omega),
            toNat_byte (by omega)]
          omega

/-! ## UTF-16 -/

theorem toNat_unit {n : Nat} (h : n < 0x10000) : (UInt16.ofNat n).toNat = n := by
  rw [UInt16.toNat_ofNat', Nat.mod_eq_of_lt h]

/-- The test for one half of a pair. -/
theorem mask_eq_iff (u mark : UInt16) {k : Nat} (hmark : mark.toNat = k * 0x400) :
    ((u &&& 0xFC00) == mark) = true ↔ u.toNat / 0x400 = k := by
  have hu := u.toNat_lt
  have hhigh : u.toNat &&& 0xFC00 = u.toNat / 0x400 * 0x400 :=
    and_high (k := 10) (m := 6) (by omega)
  rw [beq_iff_eq, ← UInt16.toNat_inj, UInt16.toNat_and, hmark]
  show u.toNat &&& 0xFC00 = k * 0x400 ↔ _
  rw [hhigh]
  omega

theorem isSurrogatePair_iff (u v : UInt16) :
    isSurrogatePair u v = true ↔ u.toNat / 0x400 = 0x36 ∧ v.toNat / 0x400 = 0x37 := by
  rw [isSurrogatePair, Bool.and_eq_true, mask_eq_iff u 0xD800 (k := 0x36) rfl,
    mask_eq_iff v 0xDC00 (k := 0x37) rfl]

/-- A character that is one unit. -/
theorem utf16_unit {c : Char} (h : c.val.toNat < 0x10000) :
    utf16EncodeChar c = [c.val.toUInt16] ∧ c.val.toUInt16.toUInt32 = c.val ∧
      ∀ v, isSurrogatePair c.val.toUInt16 v = false := by
  have hbounds := char_bounds c
  have hunit : c.val.toUInt16.toNat = c.val.toNat := by
    rw [UInt32.toNat_toUInt16, Nat.mod_eq_of_lt h]
  refine ⟨?_, ?_, fun v => ?_⟩
  · rw [utf16EncodeChar, if_pos h]
    rfl
  · apply UInt32.toNat_inj.1
    rw [UInt16.toNat_toUInt32, hunit]
  · rw [Bool.eq_false_iff, Ne, isSurrogatePair_iff, hunit]
    omega

/-- The two units of a character above the first plane. -/
structure Pair (c : Char) (first second : UInt16) : Prop where
  encode : utf16EncodeChar c = [first, second]
  isPair : isSurrogatePair first second = true
  decode : pairCodePoint first second = c.val
  high : ((c.val - 0x10000) >>> 10 + 0xD800).toUInt16 = first
  low : (((c.val - 0x10000) &&& 0x3FF) + 0xDC00).toUInt16 = second

theorem toNat_sub_of_le {a b : UInt32} {n : Nat} (hb : b.toNat = n) (h : n ≤ a.toNat) :
    (a - b).toNat = a.toNat - n := by
  rw [UInt32.toNat_sub_of_le _ _ (UInt32.le_iff_toNat_le.2 (hb ▸ h)), hb]

theorem toNat_pairCodePoint {u v : UInt16} {a b : Nat} (hu : u.toNat = a + 0xD800) (ha : a < 0x400)
    (hv : v.toNat = b + 0xDC00) (hb : b < 0x400) :
    (pairCodePoint u v).toNat = a * 0x400 + b + 0x10000 := by
  have hfirst : (u.toUInt32 - 0xD800).toNat = a := by
    rw [toNat_sub_of_le (n := 0xD800) rfl (by rw [UInt16.toNat_toUInt32]; omega),
      UInt16.toNat_toUInt32, hu, Nat.add_sub_cancel]
  have hsecond : (v.toUInt32 - 0xDC00).toNat = b := by
    rw [toNat_sub_of_le (n := 0xDC00) rfl (by rw [UInt16.toNat_toUInt32]; omega),
      UInt16.toNat_toUInt32, hv, Nat.add_sub_cancel]
  have hten : (10 : UInt32).toNat % 32 = 10 := rfl
  have hplane : (0x10000 : UInt32).toNat = 0x10000 := rfl
  have hor : b ||| a * 2 ^ 10 = b + a * 2 ^ 10 := or_of_lt a hb
  unfold pairCodePoint
  rw [UInt32.toNat_add, UInt32.toNat_or, UInt32.toNat_shiftLeft, hfirst, hsecond, hten, hplane,
    Nat.shiftLeft_eq, Nat.mod_eq_of_lt (a := a * 2 ^ 10) (by omega), Nat.lor_comm, hor]
  omega

theorem utf16_pair {c : Char} (h : ¬ c.val.toNat < 0x10000) :
    ∃ first second, Pair c first second := by
  have hbounds := char_bounds c
  have hsub : (c.val - 0x10000).toNat = c.val.toNat - 0x10000 :=
    toNat_sub_of_le rfl (by omega)
  have hfirst := toNat_unit (n := (c.val.toNat - 0x10000) / 0x400 + 0xD800) (by omega)
  have hsecond := toNat_unit (n := (c.val.toNat - 0x10000) % 0x400 + 0xDC00) (by omega)
  refine ⟨UInt16.ofNat ((c.val.toNat - 0x10000) / 0x400 + 0xD800),
    UInt16.ofNat ((c.val.toNat - 0x10000) % 0x400 + 0xDC00), ?_, ?_, ?_, ?_, ?_⟩
  · rw [utf16EncodeChar, if_neg h]
  · rw [isSurrogatePair_iff, hfirst, hsecond]
    omega
  · apply UInt32.toNat_inj.1
    rw [toNat_pairCodePoint hfirst (by omega) hsecond (by omega)]
    omega
  · apply UInt16.toNat_inj.1
    have hten : (10 : UInt32).toNat % 32 = 10 := rfl
    have hmark : (0xD800 : UInt32).toNat = 0xD800 := rfl
    rw [hfirst, UInt32.toNat_toUInt16, UInt32.toNat_add, UInt32.toNat_shiftRight, hsub, hten, hmark,
      Nat.shiftRight_eq_div_pow]
    omega
  · apply UInt16.toNat_inj.1
    have hmask : (0x3FF : UInt32).toNat = 2 ^ 10 - 1 := rfl
    have hmark : (0xDC00 : UInt32).toNat = 0xDC00 := rfl
    rw [hsecond, UInt32.toNat_toUInt16, UInt32.toNat_add, UInt32.toNat_and, hsub, hmask, hmark,
      and_mask]
    omega

end CUtils.Unicode
