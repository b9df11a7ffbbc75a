import CUtils.Unicode.Copy

/-!
# The three ways from UTF-16 to UTF-8

`GetUtf16ToUtf8Length` counts, `Char16ToChar8` writes to the caller's buffer, and `Str16ToStr8`
assigns the C string it has written to a `std::string`. The first two take every unit; the third
loses what stands behind a zero. So they agree on the strings without one, and on no other.
-/

namespace CUtils.Unicode

open Utf Buffer

def getUtf16ToUtf8Length (str16 : List UInt16) : Int :=
  if str16.length = 0 then -1
  else
    match utf16ToUtf8Length str16 with
    | some utf8Len => utf8Len
    | none => -1

def char16ToChar8ParamInvalid : Int := -1
def char16ToChar8EmptyStr : Int := -2
def char16ToChar8InsufficientBuffer : Int := -3

/-- `Char16ToChar8` of `string_ex.cpp`: what it returns, and the buffer then. -/
def char16ToChar8Buffer (str16 : List UInt16) (buffer : Option (List UInt8)) (bufferLen : Int) :
    Option (Int × Option (List UInt8)) :=
  match buffer with
  | none => some (char16ToChar8ParamInvalid, none)
  | some block =>
      if bufferLen ≤ 0 then some (char16ToChar8ParamInvalid, some block)
      else if str16.length = 0 then some (char16ToChar8EmptyStr, some block)
      else
        match utf16ToUtf8Length str16 with
        | none => some (char16ToChar8InsufficientBuffer, some block)
        | some utf8Len =>
            if utf8Len ≥ intMax ∨ (utf8Len + 1 : Int) > bufferLen then
              some (char16ToChar8InsufficientBuffer, some block)
            else
              (copyStr16ToStr8 str16 block (utf8Len + 1)).map fun r =>
                ((utf8Len + 1 : Int), some r.block)

theorem getUtf16ToUtf8Length_eq {str16 : List UInt16} (hne : str16 ≠ [])
    (hlength : (utf8 (scalars str16)).length < intMax) :
    getUtf16ToUtf8Length str16 = (utf8 (scalars str16)).length := by
  have hpos := List.length_pos_iff.2 hne
  rw [getUtf16ToUtf8Length, if_neg (by omega), utf16ToUtf8Length_scalars hne (by omega)]

/-- In a buffer that is large enough: the text and a zero. -/
theorem char16ToChar8Buffer_eq {str16 : List UInt16} (hne : str16 ≠ [])
    (hlength : (utf8 (scalars str16)).length < intMax) {buffer : List UInt8} {bufferLen : Int}
    (hroom : ((utf8 (scalars str16)).length : Int) + 1 ≤ bufferLen)
    (hbuffer : bufferLen ≤ buffer.length) :
    char16ToChar8Buffer str16 (some buffer) bufferLen =
      some (((utf8 (scalars str16)).length : Int) + 1,
        some (filled buffer 0 (utf8 (scalars str16) ++ [0]))) := by
  have hpos := List.length_pos_iff.2 hne
  rw [char16ToChar8Buffer, if_neg (by omega), if_neg (by omega), utf16ToUtf8Length_scalars hne (by omega)]
  simp only
  rw [if_neg (by omega), copyStr16ToStr8_eq str16 (by omega)]
  rfl

/-- The length is that of the string, and every buffer with room for it and a zero is filled with
it. -/
def Agrees (str16 : List UInt16) : Prop :=
  let str8 := str16ToStr8 str16
  getUtf16ToUtf8Length str16 = str8.length ∧
    ∀ (buffer : List UInt8) (bufferLen : Int), (str8.length : Int) + 1 ≤ bufferLen →
      bufferLen ≤ buffer.length → bufferLen ≤ intMax →
      char16ToChar8Buffer str16 (some buffer) bufferLen =
        some ((str8.length : Int) + 1, some (filled buffer 0 (str8 ++ [0])))

/-- A C string ends before a zero. -/
theorem length_ofCString_lt {str : List UInt8} (h : 0 ∈ str) :
    (ofCString str).length < str.length := by
  refine lt_of_le_of_ne (List.takeWhile_sublist _).length_le fun heq => ?_
  have hall : ofCString str = str := (List.takeWhile_sublist _).eq_of_length heq
  have hne := List.takeWhile_eq_self_iff.1 hall 0 h
  simp at hne

/-- **The three agree** exactly when there is no zero in the string. -/
theorem entry_points_agree_iff {str16 : List UInt16} (hne : str16 ≠ [])
    (hlength : (utf8 (scalars str16)).length < intMax) : Agrees str16 ↔ 0 ∉ str16 := by
  have hmem : 0 ∈ utf8 (scalars str16) ↔ 0 ∈ str16 :=
    (zero_mem_utf8 _).trans (zero_mem_scalars str16)
  rw [Agrees, str16ToStr8_scalars hne hlength, getUtf16ToUtf8Length_eq hne hlength]
  constructor
  · rintro ⟨hlen, -⟩ hzero
    have hlt := length_ofCString_lt (hmem.2 hzero)
    omega
  · intro hzero
    have hself : ofCString (utf8 (scalars str16)) = utf8 (scalars str16) := by
      refine ofCString_eq_self fun b hb hb0 => hzero (hmem.1 ?_)
      rwa [hb0] at hb
    rw [hself]
    refine ⟨rfl, fun buffer bufferLen hroom hbuffer _ => ?_⟩
    exact char16ToChar8Buffer_eq hne hlength hroom hbuffer

theorem entry_points_agree_pair : Agrees [0x48, 0xD83D, 0xDE00] :=
  (entry_points_agree_iff (by simp) (by decide +kernel)).2 (by decide)

/-- `A`, a zero and `B`: the length is 3 and all of it is written, but the string is `A`. -/
theorem zero_cuts_string :
    getUtf16ToUtf8Length [0x41, 0, 0x42] = 3 ∧ str16ToStr8 [0x41, 0, 0x42] = [0x41] ∧
      char16ToChar8Buffer [0x41, 0, 0x42] (some [1, 1, 1, 1]) 4 =
        some (4, some [0x41, 0, 0x42, 0]) := by
  decide +kernel

end CUtils.Unicode
