import CUtils.Unicode.Copy

/-!
# What is accepted as UTF-8

On the encoding of a text the conversions are inverse to each other (`conversions_inverse`).
`String8ToString16` turns down a string that ends inside of a character and one with too many units,
and nothing else: the table of lengths knows no byte that cannot come first, trailing bytes are
masked and not looked at, and the value is not checked. So it accepts well-formed strings, as it
should, and many others. Where it does what it should, two strings never give the same result.
-/

namespace CUtils.Unicode

open Utf Buffer

/-! ## The conversion, for any bytes -/

/-- `Char8ToChar16`; inside, `none` is a null pointer. -/
def char8ToChar16Any (isSigned : Bool) (str8 : List UInt8) : Option (Option (List UInt16)) :=
  (countUnits isSigned str8 0).bind fun utf16Len =>
    match utf16Len with
    | none => some none
    | some utf16Len =>
        if utf16Len ≥ intMax then some none
        else
          (copyStr8ToStr16 isSigned str8 (List.replicate (utf16Len + 1) 0) (utf16Len + 1)).map
            fun r => some r.block

/-- `String8ToString16`; inside, `none` is false. -/
def string8ToString16Any (isSigned : Bool) (str8 : List UInt8) : Option (Option (List UInt16)) :=
  if str8.length < 1 then some none
  else (char8ToChar16Any isSigned str8).map fun str16 => str16.map ofCString

/-- `Str8ToStr16`. -/
def str8ToStr16Any (isSigned : Bool) (str8 : List UInt8) : Option (List UInt16) :=
  (string8ToString16Any isSigned str8).map fun str16 => str16.getD []

/-- The zero at the end does not belong to the string. -/
theorem ofCString_terminated (units : List UInt16) : ofCString (units ++ [0]) = ofCString units := by
  induction units with
  | nil => rfl
  | cons u units ih =>
      rw [ofCString] at ih
      rw [ofCString, ofCString, List.cons_append, List.takeWhile_cons, List.takeWhile_cons, ih]
      rfl

/-- **What is accepted**: a string that is not cut off and has fewer units than `INT_MAX`. -/
theorem string8ToString16Any_eq_iff (isSigned : Bool) {str8 : List UInt8} (hne : str8 ≠ [])
    (str16 : List UInt16) :
    string8ToString16Any isSigned str8 = some (some str16) ↔
      cutOff str8 = false ∧ (decoded isSigned str8).length < intMax ∧
        str16 = ofCString (decoded isSigned str8) := by
  have hpos := List.length_pos_iff.2 hne
  rw [string8ToString16Any, if_neg (by omega), char8ToChar16Any]
  by_cases hcount : cutOff str8 = false ∧ (decoded isSigned str8).length ≤ intMax
  · have hlen : countUnits isSigned str8 0 = some (some (decoded isSigned str8).length) :=
      (countUnits_eq_iff isSigned str8 _ (Nat.zero_le _)).2 ⟨hcount.1, by omega, hcount.2⟩
    rw [hlen, Option.bind_some]
    simp only
    split
    · refine iff_of_false (by simp) ?_
      rintro ⟨-, hlt, -⟩
      omega
    · rename_i hlt
      rw [copyStr8ToStr16_eq isSigned str8 hcount.1 (by simp), filled]
      simp only [List.take_zero, List.nil_append, Option.map_some, Option.some.injEq, hcount.1,
        List.length_append, List.length_singleton, Nat.zero_add, List.drop_replicate, Nat.sub_self,
        List.replicate_zero, List.append_nil, ofCString_terminated, Nat.not_le.1 hlt, true_and]
      exact eq_comm
  · -- the first pass returns no number
    refine iff_of_false (fun h => ?_) (fun h => hcount ⟨h.1, h.2.1.le⟩)
    obtain ⟨result, hresult, hmap⟩ := Option.map_eq_some_iff.1 h
    obtain ⟨len, hlen, hmatch⟩ := Option.bind_eq_some_iff.1 hresult
    cases len with
    | none =>
        obtain rfl := Option.some.inj hmatch
        cases hmap
    | some n =>
        obtain ⟨hcut, hn, hle⟩ := (countUnits_eq_iff isSigned str8 n (Nat.zero_le _)).1 hlen
        exact hcount ⟨hcut, by omega⟩

/-- With signed `char`s and a result, this is the conversion without a buffer. -/
theorem string8ToString16Any_signed {str8 : List UInt8} {str16 : List UInt16}
    (h : string8ToString16Any true str8 = some (some str16)) :
    string8ToString16 str8 = some str16 := by
  have hne : str8 ≠ [] := by
    rintro rfl
    cases h
  have hpos := List.length_pos_iff.2 hne
  obtain ⟨hcut, hlt, rfl⟩ := (string8ToString16Any_eq_iff true hne str16).1 h
  rw [string8ToString16, if_neg (by omega), char8ToChar16, utf8ToUtf16Length,
    utf8ToUtf16LengthLoop_eq, hcut, Nat.zero_add]
  simp only [Bool.false_eq_true, if_false]
  rw [if_neg (by omega), strncpyStr8ToStr16, Nat.add_sub_cancel, utf8ToUtf16_eq str8 le_rfl]
  rfl

/-! ## Well-formed text -/

/-- The encoding of a text is accepted, and its result is the other encoding. -/
theorem str8ToStr16Any_utf8 {text : List Char} (htext : text ≠ []) (hzero : ∀ c ∈ text, c ≠ '\x00')
    (hlength : (utf16 text).length < intMax) (isSigned : Bool) :
    str8ToStr16Any isSigned (utf8 text) = some (utf16 text) := by
  obtain ⟨hdecoded, hcut⟩ := decoded_utf8 isSigned text
  have hne : utf8 text ≠ [] := by
    obtain ⟨c, rest, rfl⟩ := List.exists_cons_of_ne_nil htext
    obtain ⟨b, tail, hencode, -⟩ := utf8_decode_char c []
    rw [utf8_cons, hencode]
    simp
  have haccepted : string8ToString16Any isSigned (utf8 text) = some (some (utf16 text)) := by
    refine (string8ToString16Any_eq_iff isSigned hne _).2 ⟨hcut, hdecoded ▸ hlength, ?_⟩
    rw [hdecoded, ofCString_eq_self (utf16_ne_zero hzero)]
  rw [str8ToStr16Any, haccepted]
  rfl

/-- **The two conversions are inverse to each other** on well-formed text: each makes the one
encoding out of the other, with signed and with unsigned `char`s. -/
theorem conversions_inverse {text : List Char} (htext : text ≠ []) (hzero : ∀ c ∈ text, c ≠ '\x00')
    (h8 : (utf8 text).length < intMax) (h16 : (utf16 text).length < intMax) :
    (str8ToStr16 (utf8 text) = utf16 text ∧ str16ToStr8 (utf16 text) = utf8 text ∧
      str16ToStr8 (str8ToStr16 (utf8 text)) = utf8 text ∧
      str8ToStr16 (str16ToStr8 (utf16 text)) = utf16 text) ∧
    ∀ isSigned, str8ToStr16Any isSigned (utf8 text) = some (utf16 text) ∧
      (str8ToStr16Any isSigned (utf8 text)).map str16ToStr8 = some (utf8 text) ∧
      str8ToStr16Any isSigned (str16ToStr8 (utf16 text)) = some (utf16 text) := by
  have h816 := str8ToStr16_utf8 htext hzero h16
  have h168 := str16ToStr8_utf16 htext hzero h8
  refine ⟨⟨h816, h168, ?_, ?_⟩, fun isSigned => ?_⟩
  · rw [h816, h168]
  · rw [h168, h816]
  · have hany := str8ToStr16Any_utf8 htext hzero h16 isSigned
    refine ⟨hany, ?_, ?_⟩
    · rw [hany, Option.map_some, h168]
    · rw [h168, hany]

/-- One character of each width. -/
theorem conversions_inverse_widths :
    (str8ToStr16 (utf8 ['a', 'é', '€', '😀']) = utf16 ['a', 'é', '€', '😀'] ∧
      str16ToStr8 (utf16 ['a', 'é', '€', '😀']) = utf8 ['a', 'é', '€', '😀'] ∧
      str16ToStr8 (str8ToStr16 (utf8 ['a', 'é', '€', '😀'])) = utf8 ['a', 'é', '€', '😀'] ∧
      str8ToStr16 (str16ToStr8 (utf16 ['a', 'é', '€', '😀'])) = utf16 ['a', 'é', '€', '😀']) ∧
    ∀ isSigned,
      str8ToStr16Any isSigned (utf8 ['a', 'é', '€', '😀']) = some (utf16 ['a', 'é', '€', '😀']) ∧
      (str8ToStr16Any isSigned (utf8 ['a', 'é', '€', '😀'])).map str16ToStr8 =
        some (utf8 ['a', 'é', '€', '😀']) ∧
      str8ToStr16Any isSigned (str16ToStr8 (utf16 ['a', 'é', '€', '😀'])) =
        some (utf16 ['a', 'é', '€', '😀']) :=
  conversions_inverse (by simp) (by simp) (by decide +kernel) (by decide +kernel)

/-! ## Validation -/

/-- Accepted, with a result that is not empty, exactly when well formed. -/
def Validates (isSigned : Bool) (str8 : List UInt8) : Prop :=
  ((∃ str16, string8ToString16Any isSigned str8 = some (some str16)) ↔ WellFormed str8) ∧
    ((∃ str16, str8ToStr16Any isSigned str8 = some str16 ∧ str16 ≠ []) ↔ WellFormed str8)

theorem accepted_iff (isSigned : Bool) {str8 : List UInt8} (hne : str8 ≠ []) :
    (∃ str16, string8ToString16Any isSigned str8 = some (some str16)) ↔
      cutOff str8 = false ∧ (decoded isSigned str8).length < intMax := by
  simp only [string8ToString16Any_eq_iff isSigned hne, exists_and_left, exists_eq, and_true]

/-- A well-formed string is decoded to the text it encodes. -/
structure Encodes (isSigned : Bool) (str8 : List UInt8) (text : List Char) : Prop where
  bytes : str8 = utf8 text
  units : decoded isSigned str8 = utf16 text
  notCut : cutOff str8 = false
  noZero : ofCString (utf16 text) = utf16 text

theorem exists_encodes {str8 : List UInt8} (h : WellFormed str8) (hzero : 0 ∉ str8)
    (isSigned : Bool) : ∃ text, Encodes isSigned str8 text := by
  obtain ⟨text, rfl⟩ := (wellFormed_iff str8).1 h
  obtain ⟨hdecoded, hcut⟩ := decoded_utf8 isSigned text
  refine ⟨text, rfl, hdecoded, hcut, ofCString_eq_self (utf16_ne_zero fun c hc => ?_)⟩
  rintro rfl
  exact hzero ((zero_mem_utf8 text).2 hc)

/-- Where it is accepted, a well-formed string gives a result that is not empty. -/
theorem Encodes.ne_nil {isSigned : Bool} {str8 : List UInt8} {text : List Char}
    (h : Encodes isSigned str8 text) (hne : str8 ≠ []) : utf16 text ≠ [] := by
  intro hnil
  have htext := scalars_utf16 text
  rw [hnil] at htext
  rw [h.bytes, ← htext] at hne
  exact hne rfl

theorem str8ToStr16Any_ne_nil {isSigned : Bool} {str8 : List UInt8} {str16 : List UInt16}
    (h : str8ToStr16Any isSigned str8 = some str16) (hne : str16 ≠ []) :
    string8ToString16Any isSigned str8 = some (some str16) := by
  obtain ⟨result, hresult, rfl⟩ := Option.map_eq_some_iff.1 h
  cases result with
  | none => exact absurd rfl hne
  | some str16 => exact hresult

/-- The last character is cut off, or the string is well formed exactly when it has fewer units than
`INT_MAX`. -/
def Sound (isSigned : Bool) (str8 : List UInt8) : Prop :=
  cutOff str8 = true ∨ (WellFormed str8 ↔ (decoded isSigned str8).length < intMax)

theorem validates_iff (isSigned : Bool) {str8 : List UInt8} (hne : str8 ≠ []) (hzero : 0 ∉ str8) :
    Validates isSigned str8 ↔ Sound isSigned str8 := by
  rw [Validates, accepted_iff isSigned hne]
  constructor
  · rintro ⟨hiff, -⟩
    cases hcut : cutOff str8 with
    | true => exact .inl hcut
    | false =>
        rw [hcut] at hiff
        exact .inr ⟨fun h => (hiff.2 h).2, fun h => hiff.1 ⟨rfl, h⟩⟩
  · intro h
    have hiff : (cutOff str8 = false ∧ (decoded isSigned str8).length < intMax) ↔
        WellFormed str8 := by
      rcases h with hcut | hwell
      · refine iff_of_false (by simp [hcut]) fun hwell => ?_
        obtain ⟨text, hencodes⟩ := exists_encodes hwell hzero isSigned
        rw [hencodes.notCut] at hcut
        cases hcut
      · refine ⟨fun h => hwell.2 h.2, fun h => ⟨?_, hwell.1 h⟩⟩
        obtain ⟨text, hencodes⟩ := exists_encodes h hzero isSigned
        exact hencodes.notCut
    refine ⟨hiff, ?_⟩
    constructor
    · rintro ⟨str16, hstr, hne16⟩
      exact hiff.1 ((accepted_iff isSigned hne).1 ⟨str16, str8ToStr16Any_ne_nil hstr hne16⟩)
    · intro hwell
      obtain ⟨hcut, hlt⟩ := hiff.2 hwell
      obtain ⟨text, hencodes⟩ := exists_encodes hwell hzero isSigned
      have hstr := (string8ToString16Any_eq_iff isSigned hne _).2 ⟨hcut, hlt, rfl⟩
      rw [hencodes.units, hencodes.noZero] at hstr
      exact ⟨utf16 text, by rw [str8ToStr16Any, hstr]; rfl, hencodes.ne_nil hne⟩

/-- A string that is sound and accepted is the encoding of the text its result stands for. -/
theorem Sound.bytes {isSigned : Bool} {str8 : List UInt8} (h : Sound isSigned str8) (hne : str8 ≠ [])
    (hzero : 0 ∉ str8) {str16 : List UInt16}
    (haccepted : string8ToString16Any isSigned str8 = some (some str16)) :
    str8 = utf8 (scalars str16) := by
  obtain ⟨hcut, hlt, rfl⟩ := (string8ToString16Any_eq_iff isSigned hne str16).1 haccepted
  have hwell : WellFormed str8 := by
    rcases h with hcut' | hwell
    · rw [hcut] at hcut'
      cases hcut'
    · exact hwell.2 hlt
  obtain ⟨text, hencodes⟩ := exists_encodes hwell hzero isSigned
  rw [hencodes.units, hencodes.noZero, scalars_utf16]
  exact hencodes.bytes

/-- **Validation.** For every string, with signed and with unsigned `char`s: what is accepted is what
is well formed exactly when the string is sound. No two sound strings are accepted with one result. -/
theorem utf8_validation (isSigned : Bool) {str8 : List UInt8} (hne : str8 ≠ []) (hzero : 0 ∉ str8) :
    (Validates isSigned str8 ↔ Sound isSigned str8) ∧
      (Sound isSigned str8 → ∀ other, other ≠ [] → 0 ∉ other → Sound isSigned other →
        ∀ str16, string8ToString16Any isSigned str8 = some (some str16) →
          string8ToString16Any isSigned other = some (some str16) → str8 = other) := by
  refine ⟨validates_iff isSigned hne hzero, ?_⟩
  intro hsound other hneOther hzeroOther hsoundOther str16 h hOther
  rw [hsound.bytes hne hzero h]
  exact (hsoundOther.bytes hneOther hzeroOther hOther).symm

theorem utf8_validation_two_bytes : Validates true [0xC3, 0xA9] := by
  have hwell : WellFormed [0xC3, 0xA9] := (wellFormed_iff _).2 ⟨['é'], by decide⟩
  have hlt : (decoded true [0xC3, 0xA9]).length < intMax := by decide +kernel
  exact (utf8_validation true (by simp) (by decide)).1.2 (.inr (iff_of_true hwell hlt))

/-- A bare continuation byte is accepted, and the overlong `C1 81` like the `A` it stands for. -/
theorem malformed_accepted :
    (¬ WellFormed [0x80] ∧ string8ToString16Any false [0x80] = some (some [0x80]) ∧
      string8ToString16Any true [0x80] = some (some [0xD7BF, 0xDF80])) ∧
      string8ToString16Any false [0x41] = some (some [0x41]) ∧
      string8ToString16Any false [0xC1, 0x81] = some (some [0x41]) := by
  refine ⟨⟨fun h => ?_, by decide +kernel, by decide +kernel⟩, by decide +kernel, by decide +kernel⟩
  generalize hs : ([0x80] : List UInt8) = s at h
  cases h with
  | nil => cases hs
  | char hrow hleast hsurrogate hmax hrest =>
      cases hrow with
      | one ha =>
          obtain ⟨rfl, -⟩ := List.cons_eq_cons.1 hs
          exact absurd ha (by decide)
      | two ha hb => simp at hs
      | three ha hb hc => simp at hs
      | four ha hb hc hd => simp at hs

end CUtils.Unicode
