import CUtils.Unicode.Scalars
import CUtils.Unicode.Decode

/-!
# Well-formed text

Both conversions go over the text twice, once to count the units they are going to write and once to
write them. On the encoding of a text, each pass takes one character after the other; the counts are
the lengths of the other encoding, so the room is just what is needed. A character that is zero would
end the result early, so there is none.
-/

namespace CUtils.Unicode

open Utf

/-! ## Units that are not zero -/

theorem ofCString_eq_self {α : Type} [BEq α] [LawfulBEq α] [OfNat α 0] {str : List α}
    (h : ∀ u ∈ str, u ≠ 0) : ofCString str = str := by
  rw [ofCString, List.takeWhile_eq_self_iff]
  intro u hu
  simpa using h u hu

theorem val_ne_zero {c : Char} (h : c ≠ '\x00') : 0 < c.val.toNat := by
  refine Nat.pos_of_ne_zero fun hzero => h ?_
  apply Char.ext
  exact UInt32.toNat_inj.1 hzero

theorem byte_ne_zero {n : Nat} (hpos : 0 < n) (hlt : n < 256) : UInt8.ofNat n ≠ 0 := by
  intro hzero
  have htoNat := toNat_byte hlt
  rw [hzero] at htoNat
  exact absurd htoNat hpos.ne

theorem utf8EncodeChar_ne_zero {c : Char} (h : c ≠ '\x00') : ∀ b ∈ String.utf8EncodeChar c, b ≠ 0 := by
  have hpos := val_ne_zero h
  have hbounds := char_bounds c
  unfold String.utf8EncodeChar
  simp only
  split
  · simp only [List.forall_mem_cons]
    exact ⟨byte_ne_zero hpos (by omega), by simp⟩
  · split
    · simp only [List.forall_mem_cons]
      exact ⟨byte_ne_zero (by omega) (by omega), byte_ne_zero (by omega) (by omega), by simp⟩
    · split
      · simp only [List.forall_mem_cons]
        exact ⟨byte_ne_zero (by omega) (by omega), byte_ne_zero (by omega) (by omega),
          byte_ne_zero (by omega) (by omega), by simp⟩
      · simp only [List.forall_mem_cons]
        exact ⟨byte_ne_zero (by omega) (by omega), byte_ne_zero (by omega) (by omega),
          byte_ne_zero (by omega) (by omega), byte_ne_zero (by omega) (by omega), by simp⟩

theorem unit_ne_zero {n : Nat} (hpos : 0 < n) (hlt : n < 0x10000) : UInt16.ofNat n ≠ 0 := by
  intro hzero
  have htoNat := toNat_unit hlt
  rw [hzero] at htoNat
  exact absurd htoNat hpos.ne

theorem utf16EncodeChar_ne_zero {c : Char} (h : c ≠ '\x00') : ∀ u ∈ utf16EncodeChar c, u ≠ 0 := by
  have hpos := val_ne_zero h
  have hbounds := char_bounds c
  unfold utf16EncodeChar
  simp only
  split
  · simp only [List.forall_mem_cons]
    exact ⟨unit_ne_zero hpos (by omega), by simp⟩
  · simp only [List.forall_mem_cons]
    exact ⟨unit_ne_zero (by omega) (by omega), unit_ne_zero (by omega) (by omega), by simp⟩

theorem utf8_ne_zero {text : List Char} (h : ∀ c ∈ text, c ≠ '\x00') : ∀ b ∈ utf8 text, b ≠ 0 := by
  intro b hb
  obtain ⟨c, hc, hbc⟩ := List.mem_flatMap.1 hb
  exact utf8EncodeChar_ne_zero (h c hc) b hbc

theorem utf16_ne_zero {text : List Char} (h : ∀ c ∈ text, c ≠ '\x00') : ∀ u ∈ utf16 text, u ≠ 0 := by
  intro u hu
  obtain ⟨c, hc, huc⟩ := List.mem_flatMap.1 hu
  exact utf16EncodeChar_ne_zero (h c hc) u huc

/-! ## From UTF-8 to UTF-16 -/

theorem gt_FFFF_iff (c : Char) : c.val > 0xFFFF ↔ ¬ c.val.toNat < 0x10000 := by
  rw [gt_iff_lt, UInt32.lt_iff_toNat_lt]
  show 0xFFFF < _ ↔ _
  omega

/-- The units of a scalar value are those of its encoding. -/
theorem unitsOf_char (c : Char) : unitsOf c.val = utf16EncodeChar c := by
  rw [unitsOf]
  by_cases h : c.val.toNat < 0x10000
  · obtain ⟨hunit, -, -⟩ := utf16_unit h
    rw [if_pos (UInt32.not_lt.1 (mt (gt_FFFF_iff c).1 (not_not.2 h))), hunit]
  · obtain ⟨first, second, hpair⟩ := utf16_pair h
    rw [if_neg (UInt32.not_le.2 ((gt_FFFF_iff c).2 h)), hpair.encode, hpair.high, hpair.low]

/-- A byte that stands for a character alone is the same with its sign and without. -/
theorem charToUInt32_char (isSigned : Bool) {b : UInt8} {c : Char}
    (h : charToUInt32 true b = c.val) : charToUInt32 isSigned b = c.val := by
  have hsmall : ∀ n < 256, 0x110000 ≤ (charToUInt32 true (UInt8.ofNat n)).toNat ∨
      charToUInt32 false (UInt8.ofNat n) = charToUInt32 true (UInt8.ofNat n) := by decide +kernel
  have hbounds := char_bounds c
  have hb := hsmall b.toNat b.toNat_lt
  rw [UInt8.ofNat_toNat, h] at hb
  cases isSigned with
  | true => exact h
  | false => exact hb.resolve_left (by omega)

/-- A character is decoded to itself, whether `char` is signed or not. -/
theorem codePointOf_char (isSigned : Bool) (c : Char) (rest : List UInt8) :
    ∃ b tail, String.utf8EncodeChar c = b :: tail ∧
      utf8CodePointLen b = (b :: tail).length ∧
      codePointOf isSigned (b :: (tail ++ rest)) (b :: tail).length = c.val := by
  obtain ⟨b, tail, hencode, hlen, hvalue⟩ := utf8_decode_char c rest
  refine ⟨b, tail, hencode, hlen, ?_⟩
  rw [codePointOf]
  split
  · rename_i hone
    rw [hone] at hvalue
    exact charToUInt32_char isSigned hvalue
  · exact hvalue

/-- **The encoding of a text is decoded** to its other encoding, and it is not cut off. -/
theorem decoded_utf8 (isSigned : Bool) (text : List Char) :
    decoded isSigned (utf8 text) = utf16 text ∧ cutOff (utf8 text) = false := by
  induction text with
  | nil =>
      rw [utf8, List.flatMap_nil, decoded, cutOff]
      exact ⟨rfl, rfl⟩
  | cons c text ih =>
      obtain ⟨b, tail, hencode, hlen, hvalue⟩ := codePointOf_char isSigned c (utf8 text)
      have hdrop : (tail ++ utf8 text).drop ((b :: tail).length - 1) = utf8 text := by
        rw [List.length_cons, Nat.add_sub_cancel, List.drop_left]
      rw [utf8_cons, hencode, List.cons_append, decoded, cutOff, hlen, hvalue, hdrop, utf16_cons,
        unitsOf_char, ih.1, if_neg (by simp)]
      exact ⟨rfl, ih.2⟩

theorem str8ToStr16_utf8 {text : List Char} (htext : text ≠ []) (hzero : ∀ c ∈ text, c ≠ '\x00')
    (hlength : (utf16 text).length < intMax) : str8ToStr16 (utf8 text) = utf16 text := by
  obtain ⟨hdecoded, hcut⟩ := decoded_utf8 true text
  have hlen : ¬ (utf8 text).length < 1 := by
    obtain ⟨c, rest, rfl⟩ := List.exists_cons_of_ne_nil htext
    obtain ⟨b, tail, hencode, -⟩ := utf8_decode_char c []
    rw [utf8_cons, hencode]
    simp
  have hcount : utf8ToUtf16Length (utf8 text) = some (utf16 text).length := by
    rw [utf8ToUtf16Length, utf8ToUtf16LengthLoop_eq, hcut, hdecoded, Nat.zero_add]
    rfl
  have hchar : char8ToChar16 (utf8 text) = some (utf16 text) := by
    unfold char8ToChar16
    rw [hcount]
    simp only
    rw [if_neg (by omega), strncpyStr8ToStr16, Nat.add_sub_cancel,
      utf8ToUtf16_eq _ (hdecoded ▸ le_rfl), hdecoded]
  rw [str8ToStr16, string8ToString16, if_neg hlen, hchar]
  exact ofCString_eq_self (utf16_ne_zero hzero)

/-! ## From UTF-16 to UTF-8 -/

/-- The encoding of a text stands for that text. -/
theorem scalars_utf16 (text : List Char) : scalars (utf16 text) = text := by
  induction text with
  | nil => rfl
  | cons c text ih =>
      rw [utf16_cons]
      by_cases h : c.val.toNat < 0x10000
      · obtain ⟨hunit, hval, -⟩ := utf16_unit h
        have htoNat : c.val.toUInt16.toNat = c.val.toNat := by
          rw [← hval, UInt16.toNat_toUInt32, hval]
        have hbounds := char_bounds c
        have hwhole : ¬ IsHigh c.val.toUInt16 ∧ ¬ IsLow c.val.toUInt16 := by
          rw [IsHigh, IsLow, htoNat]
          omega
        rw [hunit, List.singleton_append, scalars_unit hwhole.1 hwhole.2, htoNat, ih]
        exact congrArg (· :: text) (Char.ofNat_toNat c)
      · obtain ⟨first, second, hpair⟩ := utf16_pair h
        have hhalves := (isSurrogatePair_iff_high_low first second).1 hpair.isPair
        have hchar : ofPair first second = c := by
          apply Char.ext
          rw [← hpair.decode, pairCodePoint_eq hhalves.1 hhalves.2]
        rw [hpair.encode, List.cons_append, List.singleton_append, scalars, if_pos hhalves, hchar, ih]

theorem str16ToStr8_utf16 {text : List Char} (htext : text ≠ []) (hzero : ∀ c ∈ text, c ≠ '\x00')
    (hlength : (utf8 text).length < intMax) : str16ToStr8 (utf16 text) = utf8 text := by
  have hscalars := scalars_utf16 text
  have hne : utf16 text ≠ [] := by
    intro hnil
    rw [hnil] at hscalars
    exact htext hscalars.symm
  have hstr := str16ToStr8_scalars hne (by rw [hscalars]; exact hlength)
  rw [hstr, hscalars, ofCString_eq_self (utf8_ne_zero hzero)]

end CUtils.Unicode
