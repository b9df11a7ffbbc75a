import CUtils.Lib.Substring

/-!
# String helpers

The scanning functions of `string_ex.cpp` and `CountStrInStr` of `file_ex.cpp`, with what they use of
`std::string` and of the C library. A string is the list of its bytes, and `npos` is `none`; an
`int` that is counted up is a 32-bit word.
-/

namespace CUtils.StringEx

open Substring

abbrev Str := List UInt8

/-! ## `std::string` -/

/-- `str.find(sub, pos)`. -/
def find (str sub : Str) (pos : Nat) : Option Nat :=
  if pos ≤ str.length then (firstIndex sub (str.drop pos)).map (pos + ·) else none

/-- `str.substr(pos, n)`. -/
def substr (str : Str) (pos n : Nat) : Str := (str.drop pos).take n

/-- `str.replace(pos, n, dst)`. -/
def replace (str : Str) (pos n : Nat) (dst : Str) : Str := str.take pos ++ dst ++ str.drop (pos + n)

/-- `str.find_first_not_of(c)`. -/
def findFirstNotOf (str : Str) (c : UInt8) : Option Nat := str.findIdx? (· != c)

/-- `str.find_last_not_of(c)`: found from the end. -/
def findLastNotOf (str : Str) (c : UInt8) : Option Nat :=
  (str.reverse.findIdx? (· != c)).map (str.length - 1 - ·)

/-- What has been found lies in the string, at or behind the position. -/
theorem find_le {str sub : Str} {pos i : Nat} (h : find str sub pos = some i) :
    pos ≤ i ∧ i + sub.length ≤ str.length := by
  rw [find] at h
  split at h
  · obtain ⟨j, hj, rfl⟩ := Option.map_eq_some_iff.1 h
    obtain ⟨a, b, hab, rfl, -⟩ := firstIndex_some hj
    have hlen := congrArg List.length hab
    simp only [List.length_drop, List.length_append] at hlen
    omega
  · cases h

/-! ## Replacing and counting -/

/-- The loop of `ReplaceStr`. -/
def replaceLoop (src dst : Str) (hsrc : src ≠ []) (strTmp : Str) (pos : Nat) : Str :=
  match _ : find strTmp src pos with
  | none => strTmp
  | some pos' =>
      replaceLoop src dst hsrc (replace strTmp pos' src.length dst) (pos' + dst.length)
termination_by strTmp.length - pos
decreasing_by
  have hle := find_le ‹find _ _ _ = some _›
  have hpos := List.length_pos_iff.2 hsrc
  simp only [replace, List.length_append, List.length_take, List.length_drop]
  omega

def replaceStr (str src dst : Str) : Str :=
  if hsrc : src = [] then str else replaceLoop src dst hsrc str 0

/-- The loop of `CountStrInStr`. -/
def countLoop (str subStr : Str) (hsub : subStr ≠ []) (position : Nat) (count : BitVec 32) :
    BitVec 32 :=
  match _ : find str subStr position with
  | none => count
  | some position' => countLoop str subStr hsub (position' + subStr.length) (count + 1)
termination_by str.length - position
decreasing_by
  have hle := find_le ‹find _ _ _ = some _›
  have hpos := List.length_pos_iff.2 hsub
  omega

def countStrInStr (str subStr : Str) : BitVec 32 :=
  if hsub : subStr = [] then 0 else countLoop str subStr hsub 0 0

/-! ## Trimming and splitting -/

def trimStr (str : Str) (cTrim : UInt8) : Str :=
  if str.length = 1 ∧ str.head? = some cTrim then []
  else
    let strTmp :=
      match findFirstNotOf str cTrim with
      | some firstBound => str.drop firstBound
      | none => str
    match findLastNotOf strTmp cTrim with
    | some lastBound =>
        if lastBound ≠ strTmp.length - 1 then strTmp.take (lastBound + 1) else strTmp
    | none => strTmp

/-- The blank `TrimStr` trims by default. -/
def blank : UInt8 := 0x20

/-- The loop of `SplitStr`; a part that is empty is not stored unless it can be. -/
def splitLoop (sep : Str) (canEmpty needTrim : Bool) (strTmp : Str) : List Str :=
  let part := fun str => if needTrim then trimStr str blank else str
  let push := fun strPart strs => if strPart ≠ [] ∨ canEmpty then strPart :: strs else strs
  match _ : find strTmp sep 0 with
  | none => push (part strTmp) []
  | some pos =>
      if _ : sep = [] then push (part strTmp) []
      else
        push (part (substr strTmp 0 pos))
          (splitLoop sep canEmpty needTrim
            (substr strTmp (sep.length + pos) (strTmp.length - sep.length - pos)))
termination_by strTmp.length
decreasing_by
  have hle := find_le ‹find _ _ _ = some _›
  have hpos := List.length_pos_iff.2 ‹¬ sep = []›
  simp only [substr, List.length_take, List.length_drop]
  omega

def splitStr (str sep : Str) (canEmpty needTrim : Bool) : List Str :=
  splitLoop sep canEmpty needTrim (if needTrim then trimStr str blank else str)

/-! ## Between two delimiters -/

/-- `none` is the answer `npos`, with `sub` left as it is; else the position of the right delimiter
and what `sub` is set to. -/
def getFirstSubStrBetween (str left right : Str) : Option (Nat × Str) :=
  if left = [] ∨ right = [] then none
  else
    match find str left 0 with
    | none => none
    | some leftPos =>
        match find str right (leftPos + left.length) with
        | none => none
        | some rightPos =>
            some (rightPos,
              substr str (leftPos + left.length) (rightPos - (leftPos + left.length)))

/-- The right delimiter lies behind a left one, which is not empty. -/
theorem getFirstSubStrBetween_pos {str left right subString : Str} {pos : Nat}
    (h : getFirstSubStrBetween str left right = some (pos, subString)) :
    0 < pos ∧ pos ≤ str.length := by
  rw [getFirstSubStrBetween] at h
  split at h
  · cases h
  · rename_i hne
    have hleft := List.length_pos_iff.2 (not_or.1 hne).1
    split at h
    · cases h
    · split at h
      · cases h
      · rename_i rightPos hright
        have hle := find_le hright
        obtain ⟨rfl, -⟩ := Prod.mk.inj (Option.some.inj h)
        omega

/-- The loop of `GetSubStrBetween`; it goes on at the right delimiter, not behind it. -/
def subStrLoop (left right strTmp : Str) (sub : List Str) : List Str :=
  match _ : getFirstSubStrBetween strTmp left right with
  | none => sub
  | some (pos, subString) => subStrLoop left right (strTmp.drop pos) (sub ++ [subString])
termination_by strTmp.length
decreasing_by
  have hpos := getFirstSubStrBetween_pos ‹getFirstSubStrBetween _ _ _ = some _›
  rw [List.length_drop]
  omega

def getSubStrBetween (str left right : Str) (sub : List Str) : List Str :=
  subStrLoop left right str sub

end CUtils.StringEx
