import CUtils.Unicode.Characters
import Mathlib.Data.List.TakeWhile

/-!
# Any units of UTF-16

The pass that counts and the pass that writes take the units apart in the same way: a pair, or one
unit (`nextCodePoint`). What is taken is a character of the text the units stand for (`scalars`) or
half a pair, which has no bytes. So the count is the number of bytes written, whatever the units
are.
-/

namespace CUtils.Unicode

open Utf

/-- What both passes take in one go: the code point, and the units behind it. -/
def nextCodePoint (u : UInt16) : List UInt16 → UInt32 × List UInt16
  | [] => (u.toUInt32, [])
  | v :: rest =>
      if isSurrogatePair u v then (pairCodePoint u v, rest) else (u.toUInt32, v :: rest)

theorem length_nextCodePoint (u : UInt16) (rest : List UInt16) :
    (nextCodePoint u rest).2.length < (u :: rest).length := by
  cases rest with
  | nil => simp [nextCodePoint]
  | cons v rest =>
      rw [nextCodePoint]
      split
      · simp only [List.length_cons]
        omega
      · simp

theorem isSurrogatePair_iff_high_low (u v : UInt16) :
    isSurrogatePair u v = true ↔ IsHigh u ∧ IsLow v := by
  rw [isSurrogatePair_iff, IsHigh, IsLow]
  omega

/-- A code point taken, with the characters it stands for: one or none. -/
structure Taken (codePoint : UInt32) (text : List Char) : Prop where
  length : utf32CodePointUtf8Length codePoint = (utf8 text).length
  bytes : utf32CodePointToUtf8 codePoint (utf8 text).length = utf8 text
  short : (utf8 text).length ≤ 4

theorem length_utf8EncodeChar_le (c : Char) : (String.utf8EncodeChar c).length ≤ 4 := by
  unfold String.utf8EncodeChar
  simp only
  split
  · simp
  · split
    · simp
    · split
      · simp
      · simp

theorem taken_char (c : Char) : Taken c.val [c] := by
  have hutf8 : utf8 [c] = String.utf8EncodeChar c := List.flatMap_singleton _ _
  refine ⟨?_, ?_, ?_⟩
  · rw [hutf8, utf32CodePointUtf8Length_char]
  · rw [hutf8, utf32CodePointToUtf8_char]
  · rw [hutf8]
    exact length_utf8EncodeChar_le c

theorem pairCodePoint_eq {u v : UInt16} (hu : IsHigh u) (hv : IsLow v) :
    pairCodePoint u v = (ofPair u v).val := by
  apply UInt32.toNat_inj.1
  rw [val_ofPair hu hv]
  obtain ⟨hu, hu'⟩ := hu
  obtain ⟨hv, hv'⟩ := hv
  exact toNat_pairCodePoint (by omega) (by omega) (by omega) (by omega)

theorem taken_pair {u v : UInt16} (hu : IsHigh u) (hv : IsLow v) :
    Taken (pairCodePoint u v) [ofPair u v] := by
  rw [pairCodePoint_eq hu hv]
  exact taken_char _

theorem taken_unit (u : UInt16) : Taken u.toUInt32 (ofUnit u) := by
  have hlt := u.toNat_lt
  have htoNat := UInt16.toNat_toUInt32 u
  rw [ofUnit]
  split
  · rename_i hhalf
    have hlen : utf32CodePointUtf8Length u.toUInt32 = 0 := by
      have hbelow : ∀ n < 2 ^ 32, n ≤ 0xD800 → ¬ u.toUInt32 < UInt32.ofNat n := by
        intro n hn hle
        rw [UInt32.lt_iff_toNat_lt, UInt32.toNat_ofNat', Nat.mod_eq_of_lt hn]
        rw [IsHigh, IsLow] at hhalf
        omega
      have h80 : ¬ u.toUInt32 < 0x80 := hbelow 0x80 (by decide) (by decide)
      have h800 : ¬ u.toUInt32 < 0x800 := hbelow 0x800 (by decide) (by decide)
      have hD800 : ¬ u.toUInt32 < 0xD800 := hbelow 0xD800 (by decide) (by decide)
      have h10000 : u.toUInt32 < 0x10000 := by
        rw [UInt32.lt_iff_toNat_lt, htoNat]
        exact hlt
      have hDFFF : ¬ u.toUInt32 > 0xDFFF := by
        rw [gt_iff_lt, UInt32.lt_iff_toNat_lt, htoNat]
        rw [IsHigh, IsLow] at hhalf
        show ¬ 0xDFFF < u.toNat
        omega
      rw [utf32CodePointUtf8Length, if_neg h80, if_neg h800, if_pos h10000,
        if_neg (not_or.2 ⟨hD800, hDFFF⟩)]
    exact ⟨hlen, rfl, by simp [utf8]⟩
  · rename_i hwhole
    have hval : u.toUInt32 = (Char.ofNat u.toNat).val := by
      apply UInt32.toNat_inj.1
      rw [htoNat, val_ofNat]
      rw [IsHigh, IsLow] at hwhole
      omega
    rw [hval]
    exact taken_char _

/-- **What is taken** stands for the first characters of the text. -/
theorem exists_taken (u : UInt16) (rest : List UInt16) :
    ∃ text, Taken (nextCodePoint u rest).1 text ∧
      scalars (u :: rest) = text ++ scalars (nextCodePoint u rest).2 := by
  cases rest with
  | nil => exact ⟨ofUnit u, taken_unit u, (List.append_nil _).symm⟩
  | cons v rest =>
      rw [nextCodePoint, scalars]
      by_cases hpair : isSurrogatePair u v = true
      · obtain ⟨hu, hv⟩ := (isSurrogatePair_iff_high_low u v).1 hpair
        rw [if_pos hpair, if_pos ⟨hu, hv⟩]
        exact ⟨[ofPair u v], taken_pair hu hv, rfl⟩
      · have hnot : ¬ (IsHigh u ∧ IsLow v) := mt (isSurrogatePair_iff_high_low u v).2 hpair
        rw [if_neg hpair, if_neg hnot]
        exact ⟨ofUnit u, taken_unit u, rfl⟩

/-- An induction over the units as they are taken. -/
theorem take_induction {P : List UInt16 → Prop} (nil : P [])
    (take : ∀ u rest, P (nextCodePoint u rest).2 → P (u :: rest)) (units : List UInt16) :
    P units := by
  induction hn : units.length using Nat.strong_induction_on generalizing units with
  | _ n ih =>
      cases units with
      | nil => exact nil
      | cons u rest =>
          have hlt := length_nextCodePoint u rest
          exact take u rest (ih _ (hn ▸ hlt) _ rfl)

/-! ## The two passes -/

theorem utf16ToUtf8LengthLoop_cons (u : UInt16) (rest : List UInt16) (n : Nat) :
    utf16ToUtf8LengthLoop (u :: rest) n =
      let charLen := utf32CodePointUtf8Length (nextCodePoint u rest).1
      if n > intMax - charLen then none
      else utf16ToUtf8LengthLoop (nextCodePoint u rest).2 (n + charLen) := by
  cases rest with
  | nil => rfl
  | cons v rest =>
      rw [utf16ToUtf8LengthLoop, nextCodePoint]
      by_cases hpair : isSurrogatePair u v = true
      · -- the pass that counts does not compute the code point of a pair
        obtain ⟨hu, hv⟩ := (isSurrogatePair_iff_high_low u v).1 hpair
        have hfour : utf32CodePointUtf8Length (pairCodePoint u v) = 4 := by
          rw [(taken_pair hu hv).length]
          have hval := val_ofPair hu hv
          rw [utf8, List.flatMap_singleton, String.utf8EncodeChar, if_neg (by omega),
            if_neg (by omega), if_neg (by omega)]
          rfl
        rw [if_pos hpair, if_pos hpair, hfour]
      · rw [if_neg hpair, if_neg hpair]

theorem strncpyStr16ToStr8_cons (u : UInt16) (rest : List UInt16) (room : Nat) :
    strncpyStr16ToStr8 (u :: rest) room =
      let p := nextCodePoint u rest
      let len := utf32CodePointUtf8Length p.1
      if room ≤ len then []
      else utf32CodePointToUtf8 p.1 len ++ strncpyStr16ToStr8 p.2 (room - len) := by
  cases rest with
  | nil =>
      rw [strncpyStr16ToStr8, nextCodePoint]
      simp only [strncpyStr16ToStr8, List.append_nil]
  | cons v rest =>
      rw [strncpyStr16ToStr8, nextCodePoint]
      split <;> rfl

/-- **The first pass** counts the bytes of the text. -/
theorem utf16ToUtf8LengthLoop_scalars (units : List UInt16) {n : Nat}
    (hn : n + (utf8 (scalars units)).length ≤ intMax) :
    utf16ToUtf8LengthLoop units n = some (n + (utf8 (scalars units)).length) := by
  induction units using take_induction generalizing n with
  | nil => rfl
  | take u rest ih =>
      obtain ⟨text, htaken, hscalars⟩ := exists_taken u rest
      rw [hscalars, utf8_append, List.length_append] at hn ⊢
      rw [utf16ToUtf8LengthLoop_cons, htaken.length]
      simp only
      rw [if_neg (by omega), ih (by omega), Nat.add_assoc]

/-- **The second pass** writes them when there is room for the zero. -/
theorem strncpyStr16ToStr8_scalars (units : List UInt16) {room : Nat}
    (hroom : (utf8 (scalars units)).length < room) :
    strncpyStr16ToStr8 units room = utf8 (scalars units) := by
  induction units using take_induction generalizing room with
  | nil => rfl
  | take u rest ih =>
      obtain ⟨text, htaken, hscalars⟩ := exists_taken u rest
      rw [hscalars, utf8_append, List.length_append] at hroom
      rw [hscalars, utf8_append, strncpyStr16ToStr8_cons]
      simp only [htaken.length]
      rw [if_neg (by omega), htaken.bytes, ih (by omega)]

theorem utf16ToUtf8Length_scalars {units : List UInt16} (hne : units ≠ [])
    (hlength : (utf8 (scalars units)).length ≤ intMax) :
    utf16ToUtf8Length units = some (utf8 (scalars units)).length := by
  have hpos := List.length_pos_iff.2 hne
  rw [utf16ToUtf8Length, if_neg (by omega), utf16ToUtf8LengthLoop_scalars units (by omega),
    Nat.zero_add]

theorem string16ToString8_scalars {units : List UInt16} (hne : units ≠ [])
    (hlength : (utf8 (scalars units)).length < intMax) :
    string16ToString8 units = some (ofCString (utf8 (scalars units))) := by
  have hpos := List.length_pos_iff.2 hne
  have hchar : char16ToChar8 units = some (utf8 (scalars units)) := by
    rw [char16ToChar8, utf16ToUtf8Length_scalars hne (by omega)]
    simp only
    rw [if_neg (by omega), strncpyStr16ToStr8_scalars units (Nat.lt_succ_self _)]
  rw [string16ToString8, if_neg (by omega), hchar]
  rfl

theorem str16ToStr8_scalars {units : List UInt16} (hne : units ≠ [])
    (hlength : (utf8 (scalars units)).length < intMax) :
    str16ToStr8 units = ofCString (utf8 (scalars units)) := by
  rw [str16ToStr8, string16ToString8_scalars hne hlength]
  rfl

end CUtils.Unicode
