import Mathlib.Data.UInt

/-!
# Conversion between UTF-8 and UTF-16

`unicode_ex.cpp` and the two functions of `string_ex.cpp` in front of it. A pointer and a length, or
a pointer and the end, are the list of what is left to read. What is written to a buffer is the list
of the units written, and a C string is read up to its first zero. `char` is signed; `calloc`
succeeds. A null pointer and a length of `-1` are `none`.
-/

namespace CUtils.Unicode

def intMax : Nat := 2147483647

/-- A C string as a `std::basic_string`. -/
def ofCString {α : Type} [BEq α] [OfNat α 0] (str : List α) : List α := str.takeWhile (· != 0)

/-! ## From UTF-16 to UTF-8 -/

/-- `UTF8_FIRST_BYTE_MARK`. -/
def utf8FirstByteMark (bytes : Nat) : UInt32 := [0x00, 0x00, 0xC0, 0xE0, 0xF0].getD bytes 0

/-- `*--dstP = (srcChar | UTF8_BYTE_MARK) & UTF8_BYTE_MASK; srcChar >>= UTF8_OFFSET;` -/
def utf8Continue (p : List UInt8 × UInt32) : List UInt8 × UInt32 :=
  (((p.2 ||| 0x80) &&& 0xBF).toUInt8 :: p.1, p.2 >>> 6)

/-- The bytes are written from the last one to the first. -/
def utf32CodePointToUtf8 (srcChar : UInt32) (bytes : Nat) : List UInt8 :=
  let p := ([], srcChar)
  let p := if bytes ≥ 4 then utf8Continue p else p
  let p := if bytes ≥ 3 then utf8Continue p else p
  let p := if bytes ≥ 2 then utf8Continue p else p
  if bytes ≥ 1 then (p.2 ||| utf8FirstByteMark bytes).toUInt8 :: p.1 else p.1

def utf32CodePointUtf8Length (srcChar : UInt32) : Nat :=
  if srcChar < 0x80 then 1
  else if srcChar < 0x800 then 2
  else if srcChar < 0x10000 then
    if srcChar < 0xD800 ∨ srcChar > 0xDFFF then 3 else 0
  else if srcChar ≤ 0x10FFFF then 4
  else 0

/-- The test for a surrogate pair. -/
def isSurrogatePair (first second : UInt16) : Bool :=
  (first &&& 0xFC00) == 0xD800 && (second &&& 0xFC00) == 0xDC00

/-- The loop of `Utf16ToUtf8Length`. -/
def utf16ToUtf8LengthLoop : List UInt16 → Nat → Option Nat
  | [], utf8Len => some utf8Len
  | [u], utf8Len =>
      let charLen := utf32CodePointUtf8Length u.toUInt32
      if utf8Len > intMax - charLen then none else some (utf8Len + charLen)
  | u :: v :: rest, utf8Len =>
      if isSurrogatePair u v then
        if utf8Len > intMax - 4 then none else utf16ToUtf8LengthLoop rest (utf8Len + 4)
      else
        let charLen := utf32CodePointUtf8Length u.toUInt32
        if utf8Len > intMax - charLen then none
        else utf16ToUtf8LengthLoop (v :: rest) (utf8Len + charLen)

def utf16ToUtf8Length (str16 : List UInt16) : Option Nat :=
  if str16.length = 0 then none else utf16ToUtf8LengthLoop str16 0

/-- The code point of a surrogate pair. -/
def pairCodePoint (first second : UInt16) : UInt32 :=
  ((first.toUInt32 - 0xD800) <<< 10 ||| (second.toUInt32 - 0xDC00)) + 0x10000

/-- The loop of `StrncpyStr16ToStr8`; it ends where the room does. -/
def strncpyStr16ToStr8 : List UInt16 → Nat → List UInt8
  | [], _ => []
  | [u], str8Len =>
      let len := utf32CodePointUtf8Length u.toUInt32
      if str8Len ≤ len then [] else utf32CodePointToUtf8 u.toUInt32 len
  | u :: v :: rest, str8Len =>
      if isSurrogatePair u v then
        let utf32 := pairCodePoint u v
        let len := utf32CodePointUtf8Length utf32
        if str8Len ≤ len then []
        else utf32CodePointToUtf8 utf32 len ++ strncpyStr16ToStr8 rest (str8Len - len)
      else
        let len := utf32CodePointUtf8Length u.toUInt32
        if str8Len ≤ len then []
        else
          utf32CodePointToUtf8 u.toUInt32 len ++ strncpyStr16ToStr8 (v :: rest) (str8Len - len)

def char16ToChar8 (str16 : List UInt16) : Option (List UInt8) :=
  match utf16ToUtf8Length str16 with
  | none => none
  | some utf8Len => if utf8Len ≥ intMax then none else some (strncpyStr16ToStr8 str16 (utf8Len + 1))

def string16ToString8 (str16 : List UInt16) : Option (List UInt8) :=
  if str16.length < 1 then none else (char16ToChar8 str16).map ofCString

def str16ToStr8 (str16 : List UInt16) : List UInt8 := (string16ToString8 str16).getD []

/-! ## From UTF-8 to UTF-16 -/

def utf8CodePointLen (ch : UInt8) : Nat :=
  (((0xe5000000 : UInt32) >>> ((ch >>> 3) &&& 0x1e).toUInt32) &&& 3).toNat + 1

def utf8ShiftAndMask (codePoint : UInt32) (byte : UInt8) : UInt32 :=
  codePoint <<< 6 ||| (0x3F &&& byte.toUInt32)

def utf8ToUtf32CodePoint (src : List UInt8) (length : Nat) : UInt32 :=
  let byte := fun i => src.getD i 0
  match length with
  | 1 => (byte 0).toInt8.toInt32.toUInt32
  | 2 => utf8ShiftAndMask ((byte 0).toUInt32 &&& 0x1f) (byte 1)
  | 3 => utf8ShiftAndMask (utf8ShiftAndMask ((byte 0).toUInt32 &&& 0x0f) (byte 1)) (byte 2)
  | 4 =>
      utf8ShiftAndMask
        (utf8ShiftAndMask (utf8ShiftAndMask ((byte 0).toUInt32 &&& 0x07) (byte 1)) (byte 2)) (byte 3)
  | _ => 0xffff

/-- The loop of `Utf8ToUtf16Length`. -/
def utf8ToUtf16LengthLoop (str8 : List UInt8) (utf16len : Nat) : Option Nat :=
  match str8 with
  | [] => some utf16len
  | b :: rest =>
      let u8charlen := utf8CodePointLen b
      if (b :: rest).length < u8charlen then none
      else
        let codepoint := utf8ToUtf32CodePoint (b :: rest) u8charlen
        utf8ToUtf16LengthLoop (rest.drop (u8charlen - 1))
          (if codepoint > 0xFFFF then utf16len + 2 else utf16len + 1)
termination_by str8.length
decreasing_by simp only [List.length_drop, List.length_cons]; omega

def utf8ToUtf16Length (str8 : List UInt8) : Option Nat := utf8ToUtf16LengthLoop str8 0

/-- `Utf8ToUtf16`; half a pair that does not fit is taken back. -/
def utf8ToUtf16 (utf8Str : List UInt8) (u16len : Nat) : List UInt16 :=
  match utf8Str, u16len with
  | [], _ => []
  | _, 0 => []
  | b :: rest, room + 1 =>
      let len := utf8CodePointLen b
      let codepoint := utf8ToUtf32CodePoint (b :: rest) len
      if codepoint ≤ 0xFFFF then codepoint.toUInt16 :: utf8ToUtf16 (rest.drop (len - 1)) room
      else
        let codepoint := codepoint - 0x10000
        match room with
        | 0 => []
        | room + 1 =>
            ((codepoint >>> 10) + 0xD800).toUInt16 :: ((codepoint &&& 0x3FF) + 0xDC00).toUInt16 ::
              utf8ToUtf16 (rest.drop (len - 1)) room
termination_by u16len

def strncpyStr8ToStr16 (utf8Str : List UInt8) (u16len : Nat) : List UInt16 :=
  utf8ToUtf16 utf8Str (u16len - 1)

def char8ToChar16 (str8 : List UInt8) : Option (List UInt16) :=
  match utf8ToUtf16Length str8 with
  | none => none
  | some utf16Len =>
      if utf16Len ≥ intMax then none else some (strncpyStr8ToStr16 str8 (utf16Len + 1))

def string8ToString16 (str8 : List UInt8) : Option (List UInt16) :=
  if str8.length < 1 then none else (char8ToChar16 str8).map ofCString

def str8ToStr16 (str8 : List UInt8) : List UInt16 := (string8ToString16 str8).getD []

end CUtils.Unicode
