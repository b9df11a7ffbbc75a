import CUtils.Lib.Buffer
import CUtils.Unicode.Characters

/-!
# UTF-8 into a buffer

The way from UTF-8 once more, for any bytes, as it reads and writes memory. A byte that is read at
the end of the string or behind it, a store outside of the buffer and an `int` counted beyond its
range have no result. `char` may be signed or not: a byte taken alone is then extended with its sign
or with zeros.

The two passes are compared with what the bytes are decoded to (`decoded`), which is defined without
a buffer, and with whether the last character is cut off (`cutOff`).
-/

namespace CUtils.Unicode

open Utf Buffer

/-! ## Reading -/

/-- A `char` as a `uint32_t`. -/
def charToUInt32 (isSigned : Bool) (ch : UInt8) : UInt32 :=
  if isSigned then ch.toInt8.toInt32.toUInt32 else ch.toUInt32

/-- `Utf8ToUtf32CodePoint` of what is left of the string. -/
def readCodePoint (isSigned : Bool) (src : List UInt8) (length : Nat) : Option UInt32 :=
  match length with
  | 1 => src[0]?.map (charToUInt32 isSigned)
  | 2 => do
      let unicode := (← src[0]?).toUInt32 &&& 0x1f
      some (utf8ShiftAndMask unicode (← src[1]?))
  | 3 => do
      let unicode := (← src[0]?).toUInt32 &&& 0x0f
      let unicode := utf8ShiftAndMask unicode (← src[1]?)
      some (utf8ShiftAndMask unicode (← src[2]?))
  | 4 => do
      let unicode := (← src[0]?).toUInt32 &&& 0x07
      let unicode := utf8ShiftAndMask unicode (← src[1]?)
      let unicode := utf8ShiftAndMask unicode (← src[2]?)
      some (utf8ShiftAndMask unicode (← src[3]?))
  | _ => some 0xffff

/-- `++` on an `int`. -/
def countUp (count : Nat) : Option Nat := if count < intMax then some (count + 1) else none

/-- The loop of `Utf8ToUtf16Length`, with `none` inside for `-1`. -/
def countUnits (isSigned : Bool) (str8 : List UInt8) (utf16len : Nat) : Option (Option Nat) :=
  match str8 with
  | [] => some (some utf16len)
  | b :: rest =>
      (countUp utf16len).bind fun utf16len =>
        let u8charlen := utf8CodePointLen b
        if (b :: rest).length < u8charlen then some none
        else
          (readCodePoint isSigned (b :: rest) u8charlen).bind fun codepoint =>
            (if codepoint > 0xFFFF then countUp utf16len else some utf16len).bind fun utf16len =>
              countUnits isSigned (rest.drop (u8charlen - 1)) utf16len
termination_by str8.length
decreasing_by simp only [List.length_drop, List.length_cons]; omega

/-! ## Writing -/

/-- How `Utf8ToUtf16` ends: the buffer, what it returns as a position in it, what is left of the
string, and whether it has returned in the middle of a pair. -/
structure Decoded where
  block : List UInt16
  result : Nat
  rest : List UInt8
  split : Bool
  deriving DecidableEq

/-- The loop of `Utf8ToUtf16`. -/
def writeUnits (isSigned : Bool) (block : List UInt16) (u16cur u16end : Nat) (utf8Str : List UInt8) :
    Option Decoded :=
  match utf8Str with
  | [] => some ⟨block, u16cur, [], false⟩
  | b :: rest =>
      if u16cur < u16end then
        let len := utf8CodePointLen b
        (readCodePoint isSigned (b :: rest) len).bind fun codepoint =>
          if codepoint ≤ 0xFFFF then
            (store block u16cur codepoint.toUInt16).bind fun block =>
              writeUnits isSigned block (u16cur + 1) u16end (rest.drop (len - 1))
          else
            let codepoint := codepoint - 0x10000
            (store block u16cur ((codepoint >>> 10) + 0xD800).toUInt16).bind fun block =>
              if u16cur + 1 ≥ u16end then some ⟨block, u16cur, b :: rest, true⟩
              else
                (store block (u16cur + 1) ((codepoint &&& 0x3FF) + 0xDC00).toUInt16).bind fun block =>
                  writeUnits isSigned block (u16cur + 2) u16end (rest.drop (len - 1))
      else some ⟨block, u16cur, b :: rest, false⟩
termination_by utf8Str.length
decreasing_by all_goals simp only [List.length_drop, List.length_cons]; omega

/-- `Utf8ToUtf16` into a buffer. -/
def decodeUtf8 (isSigned : Bool) (utf8Str : List UInt8) (block : List UInt16) (u16len : Nat) :
    Option Decoded :=
  if u16len = 0 then some ⟨block, 0, utf8Str, false⟩ else writeUnits isSigned block 0 u16len utf8Str

/-- `StrncpyStr8ToStr16` into a buffer. -/
def copyStr8ToStr16 (isSigned : Bool) (utf8Str : List UInt8) (block : List UInt16) (u16len : Nat) :
    Option Decoded := do
  let r ← decodeUtf8 isSigned utf8Str block (u16len - 1)
  let block ← store r.block r.result 0
  some { r with block }

/-! ## What the bytes are decoded to -/

/-- The code point of `length` bytes, all of them there. -/
def codePointOf (isSigned : Bool) (src : List UInt8) (length : Nat) : UInt32 :=
  if length = 1 then charToUInt32 isSigned (src.getD 0 0) else utf8ToUtf32CodePoint src length

/-- The units a code point is written as. -/
def unitsOf (codepoint : UInt32) : List UInt16 :=
  if codepoint ≤ 0xFFFF then [codepoint.toUInt16]
  else
    [(((codepoint - 0x10000) >>> 10) + 0xD800).toUInt16,
      (((codepoint - 0x10000) &&& 0x3FF) + 0xDC00).toUInt16]

/-- The units of all the characters. -/
def decoded (isSigned : Bool) (str8 : List UInt8) : List UInt16 :=
  match str8 with
  | [] => []
  | b :: rest =>
      unitsOf (codePointOf isSigned (b :: rest) (utf8CodePointLen b)) ++
        decoded isSigned (rest.drop (utf8CodePointLen b - 1))
termination_by str8.length
decreasing_by simp only [List.length_drop, List.length_cons]; omega

/-- The string ends inside of a character. -/
def cutOff (str8 : List UInt8) : Bool :=
  match str8 with
  | [] => false
  | b :: rest =>
      if (b :: rest).length < utf8CodePointLen b then true
      else cutOff (rest.drop (utf8CodePointLen b - 1))
termination_by str8.length
decreasing_by simp only [List.length_drop, List.length_cons]; omega

/-- An induction over the characters. -/
theorem char_induction {P : List UInt8 → Prop} (nil : P [])
    (char : ∀ b rest, P (rest.drop (utf8CodePointLen b - 1)) → P (b :: rest)) (str8 : List UInt8) :
    P str8 := by
  induction hn : str8.length using Nat.strong_induction_on generalizing str8 with
  | _ n ih =>
      cases str8 with
      | nil => exact nil
      | cons b rest =>
          refine char b rest (ih _ ?_ _ rfl)
          rw [← hn, List.length_drop, List.length_cons]
          omega

theorem utf8CodePointLen_bounds (b : UInt8) : 1 ≤ utf8CodePointLen b ∧ utf8CodePointLen b ≤ 4 := by
  have hlen := utf8CodePointLen_ofNat b.toNat b.toNat_lt
  rw [UInt8.ofNat_toNat] at hlen
  rw [hlen]
  split
  · simp
  · split
    · simp
    · split <;> simp

theorem exists_cons_of_length {l : List UInt8} {k : Nat} (h : k ≤ l.length) (hk : 0 < k := by decide) :
    ∃ a r, l = a :: r :=
  List.exists_cons_of_length_pos (hk.trans_le h)

/-- Inside the string, every byte is there. -/
theorem readCodePoint_eq (isSigned : Bool) {b : UInt8} {rest : List UInt8}
    (h : utf8CodePointLen b ≤ (b :: rest).length) :
    readCodePoint isSigned (b :: rest) (utf8CodePointLen b) =
      some (codePointOf isSigned (b :: rest) (utf8CodePointLen b)) := by
  obtain ⟨hlow, hhigh⟩ := utf8CodePointLen_bounds b
  generalize utf8CodePointLen b = len at h hlow hhigh ⊢
  obtain rfl | rfl | rfl | rfl : len = 1 ∨ len = 2 ∨ len = 3 ∨ len = 4 := by omega
  · rfl
  · obtain ⟨c, rest, rfl⟩ : ∃ c r, rest = c :: r := exists_cons_of_length (k := 1) (by simpa using h)
    rfl
  · obtain ⟨c, rest, rfl⟩ : ∃ c r, rest = c :: r := exists_cons_of_length (k := 2) (by simpa using h)
    obtain ⟨d, rest, rfl⟩ : ∃ d r, rest = d :: r := exists_cons_of_length (k := 1) (by simpa using h)
    rfl
  · obtain ⟨c, rest, rfl⟩ : ∃ c r, rest = c :: r := exists_cons_of_length (k := 3) (by simpa using h)
    obtain ⟨d, rest, rfl⟩ : ∃ d r, rest = d :: r := exists_cons_of_length (k := 2) (by simpa using h)
    obtain ⟨e, rest, rfl⟩ : ∃ e r, rest = e :: r := exists_cons_of_length (k := 1) (by simpa using h)
    rfl

/-! ## The first pass -/

theorem length_unitsOf (codepoint : UInt32) :
    (unitsOf codepoint).length = if codepoint > 0xFFFF then 2 else 1 := by
  rw [unitsOf]
  split
  · rename_i hle
    rw [if_neg (UInt32.not_lt.2 hle)]
    rfl
  · rename_i hgt
    rw [if_pos (UInt32.not_le.1 hgt)]
    rfl

/-- Counting the units of one character, which may leave the range of an `int`. -/
theorem countUp_units (count : Nat) (codepoint : UInt32) :
    ((countUp count).bind fun n => if codepoint > 0xFFFF then countUp n else some n) =
      if count + (unitsOf codepoint).length ≤ intMax then some (count + (unitsOf codepoint).length)
      else none := by
  rw [length_unitsOf]
  simp only [countUp]
  by_cases hcount : count < intMax
  · rw [if_pos hcount, Option.bind_some]
    split
    · by_cases hsecond : count + 1 < intMax
      · rw [if_pos hsecond, if_pos (by omega)]
      · rw [if_neg hsecond, if_neg (by omega)]
    · rw [if_pos (by omega)]
  · rw [if_neg hcount, if_neg (by split <;> omega)]
    rfl

/-- One character in the first pass. -/
theorem countUnits_char (isSigned : Bool) {b : UInt8} {rest : List UInt8}
    (h : utf8CodePointLen b ≤ (b :: rest).length) (count : Nat) :
    let units := unitsOf (codePointOf isSigned (b :: rest) (utf8CodePointLen b))
    countUnits isSigned (b :: rest) count =
      if count + units.length ≤ intMax then
        countUnits isSigned (rest.drop (utf8CodePointLen b - 1)) (count + units.length)
      else none := by
  intro units
  rw [countUnits]
  simp only [Nat.not_lt.2 h, if_false, readCodePoint_eq isSigned h, Option.bind_some]
  rw [← Option.bind_assoc, countUp_units]
  split
  · rw [Option.bind_some]
  · rfl

/-- **When the first pass returns a number**: the string is not cut off, and the number is that of
the units. -/
theorem countUnits_eq_iff (isSigned : Bool) (str8 : List UInt8) {count : Nat} (n : Nat)
    (hcount : count ≤ intMax) :
    countUnits isSigned str8 count = some (some n) ↔
      cutOff str8 = false ∧ n = count + (decoded isSigned str8).length ∧ n ≤ intMax := by
  induction str8 using char_induction generalizing count with
  | nil =>
      rw [countUnits, cutOff, decoded]
      simp only [Option.some.injEq, List.length_nil, true_and]
      omega
  | char b rest ih =>
      rw [cutOff, decoded, List.length_append]
      by_cases hcut : (b :: rest).length < utf8CodePointLen b
      · rw [if_pos hcut, countUnits]
        simp only [hcut, if_true, Bool.true_eq_false, false_and, iff_false]
        cases countUp count <;> simp
      · rw [if_neg hcut, countUnits_char isSigned (Nat.le_of_not_lt hcut)]
        split
        · rename_i hle
          rw [ih hle, Nat.add_assoc]
        · refine iff_of_false (by simp) ?_
          rintro ⟨-, hn, hle⟩
          omega

/-- One character in the second pass, when its units fit. -/
theorem writeUnits_char (isSigned : Bool) {b : UInt8} {rest : List UInt8}
    (h : utf8CodePointLen b ≤ (b :: rest).length) {block : List UInt16} {cur u16end : Nat}
    (hroom : cur + (unitsOf (codePointOf isSigned (b :: rest) (utf8CodePointLen b))).length ≤ u16end)
    (hfit : u16end ≤ block.length) :
    let units := unitsOf (codePointOf isSigned (b :: rest) (utf8CodePointLen b))
    writeUnits isSigned block cur u16end (b :: rest) =
      writeUnits isSigned (filled block cur units) (cur + units.length) u16end
        (rest.drop (utf8CodePointLen b - 1)) := by
  rw [writeUnits]
  simp only [readCodePoint_eq isSigned h, Option.bind_some]
  generalize codePointOf isSigned (b :: rest) (utf8CodePointLen b) = codepoint at hroom ⊢
  rw [unitsOf] at hroom ⊢
  split at hroom
  · rename_i hle
    simp only [List.length_singleton] at hroom
    rw [if_pos (by omega), if_pos hle, if_pos hle, store_eq_filled (by omega)]
    rfl
  · rename_i hgt
    simp only [List.length_cons, List.length_nil] at hroom
    rw [if_pos (by omega), if_neg hgt, if_neg hgt, store_eq_filled (by omega), Option.bind_some,
      if_neg (by omega)]
    generalize (((codepoint - 0x10000) >>> 10) + 0xD800).toUInt16 = first
    have hsecond : ∀ second, store (filled block cur [first]) (cur + 1) second =
        some (filled block cur [first, second]) := store_behind (by simp; omega)
    rw [hsecond]
    rfl

/-- **The second pass** on a string that is not cut off, with room for its units: it reads all of the
string and nothing behind it, keeps to the buffer, and does not split a pair. -/
theorem writeUnits_eq (isSigned : Bool) (str8 : List UInt8) (hcut : cutOff str8 = false)
    {block : List UInt16} {cur : Nat} (hfit : cur + (decoded isSigned str8).length ≤ block.length) :
    writeUnits isSigned block cur (cur + (decoded isSigned str8).length) str8 =
      some ⟨filled block cur (decoded isSigned str8), cur + (decoded isSigned str8).length, [],
        false⟩ := by
  induction str8 using char_induction generalizing block cur with
  | nil =>
      rw [writeUnits, decoded]
      simp
  | char b rest ih =>
      rw [cutOff] at hcut
      split at hcut
      · cases hcut
      · rename_i hlen
        rw [decoded, List.length_append, ← Nat.add_assoc] at hfit ⊢
        rw [writeUnits_char isSigned (Nat.le_of_not_lt hlen) (by omega) hfit,
          ih hcut (by rw [length_filled (by omega)]; exact hfit), filled_filled hfit]

theorem decodeUtf8_eq (isSigned : Bool) (str8 : List UInt8) (hcut : cutOff str8 = false)
    {block : List UInt16} (hfit : (decoded isSigned str8).length ≤ block.length) :
    decodeUtf8 isSigned str8 block (decoded isSigned str8).length =
      some ⟨filled block 0 (decoded isSigned str8), (decoded isSigned str8).length, [], false⟩ := by
  rw [decodeUtf8]
  split
  · -- without a unit there is no character
    rename_i hzero
    cases str8 with
    | nil => simp [decoded]
    | cons b rest =>
        have hunits := length_unitsOf (codePointOf isSigned (b :: rest) (utf8CodePointLen b))
        rw [decoded, List.length_append, hunits] at hzero
        split at hzero <;> omega
  · have hwrite : writeUnits isSigned block 0 (0 + (decoded isSigned str8).length) str8 = some _ :=
      writeUnits_eq isSigned str8 hcut (by omega)
    rwa [Nat.zero_add] at hwrite

theorem copyStr8ToStr16_eq (isSigned : Bool) (str8 : List UInt8) (hcut : cutOff str8 = false)
    {block : List UInt16} (hfit : (decoded isSigned str8).length < block.length) :
    copyStr8ToStr16 isSigned str8 block ((decoded isSigned str8).length + 1) =
      some ⟨filled block 0 (decoded isSigned str8 ++ [0]), (decoded isSigned str8).length, [],
        false⟩ := by
  have hzero : store (filled block 0 (decoded isSigned str8))
      (0 + (decoded isSigned str8).length) 0 = some (filled block 0 (decoded isSigned str8 ++ [0])) :=
    store_behind (by omega) 0
  rw [Nat.zero_add] at hzero
  rw [copyStr8ToStr16, Nat.add_sub_cancel, decodeUtf8_eq isSigned str8 hcut hfit.le]
  simp only [Option.bind_eq_bind, Option.bind_some, hzero]

theorem codePointOf_signed (src : List UInt8) (length : Nat) :
    codePointOf true src length = utf8ToUtf32CodePoint src length := by
  rw [codePointOf]
  split
  · rename_i hone
    rw [hone]
    rfl
  · rfl

/-- The first pass, with the units counted in a number. -/
theorem utf8ToUtf16LengthLoop_eq (str8 : List UInt8) (n : Nat) :
    utf8ToUtf16LengthLoop str8 n =
      if cutOff str8 then none else some (n + (decoded true str8).length) := by
  induction str8 using char_induction generalizing n with
  | nil =>
      rw [utf8ToUtf16LengthLoop, cutOff, decoded]
      rfl
  | char b rest ih =>
      rw [utf8ToUtf16LengthLoop, cutOff, decoded]
      simp only
      split
      · rfl
      · have hunits := length_unitsOf (codePointOf true (b :: rest) (utf8CodePointLen b))
        rw [ih, List.length_append, hunits, codePointOf_signed]
        congr 2
        split <;> omega

/-- The second pass, as the list of what it writes. -/
theorem utf8ToUtf16_eq (str8 : List UInt8) {room : Nat}
    (hroom : (decoded true str8).length ≤ room) : utf8ToUtf16 str8 room = decoded true str8 := by
  induction str8 using char_induction generalizing room with
  | nil =>
      rw [utf8ToUtf16, decoded]
  | char b rest ih =>
      rw [decoded, List.length_append, codePointOf_signed] at hroom
      rw [decoded, codePointOf_signed]
      generalize hvalue : utf8ToUtf32CodePoint (b :: rest) (utf8CodePointLen b) = codepoint at hroom ⊢
      rw [unitsOf] at hroom ⊢
      by_cases hle : codepoint ≤ 0xFFFF
      · rw [if_pos hle] at hroom ⊢
        simp only [List.length_singleton] at hroom
        obtain ⟨room, rfl⟩ : ∃ r, room = r + 1 := ⟨room - 1, by omega⟩
        rw [utf8ToUtf16]
        simp only [hvalue, hle, if_true]
        rw [ih (by omega)]
        rfl
      · rw [if_neg hle] at hroom ⊢
        simp only [List.length_cons, List.length_nil] at hroom
        obtain ⟨room, rfl⟩ : ∃ r, room = r + 2 := ⟨room - 2, by omega⟩
        rw [utf8ToUtf16]
        simp only [hvalue, hle, if_false]
        rw [ih (by omega)]
        rfl

end CUtils.Unicode
