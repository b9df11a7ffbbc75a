import CUtils.StringEx.Model
import Mathlib.Algebra.Group.Nat.Defs

/-!
# Splitting, counting and replacing

Three loops look for a separator from the left: `SplitStr` goes on with the rest of the string,
`ReplaceStr` with a position in the string it is changing, `CountStrInStr` with a position in the
string it was given. All three cut the string into the same pieces (`Pieces`), so they agree, also
where the separator overlaps itself and where it occurs in what it is replaced by.
-/

namespace CUtils.StringEx

open Substring

/-- A search behind what has been dealt with is a search in the rest. -/
theorem find_append (done rest sub : Str) :
    find (done ++ rest) sub done.length = (firstIndex sub rest).map (done.length + ·) := by
  rw [find, if_pos (by simp), List.drop_left]

theorem find_of_not {rest sub : Str} (h : ¬ sub <:+: rest) (done : Str) :
    find (done ++ rest) sub done.length = none := by
  rw [find_append, firstIndex_of_not h]
  rfl

theorem find_first {a b sub : Str} (h : FirstAfter sub a b) (done : Str) :
    find (done ++ (a ++ sub ++ b)) sub done.length = some (done.length + a.length) := by
  rw [find_append, h.firstIndex]
  rfl

/-! ## The loops -/

/-- What `SplitStr` stores of a piece. -/
def partOf (needTrim : Bool) (piece : Str) : Str := if needTrim then trimStr piece blank else piece

/-- **`SplitStr` stores the pieces**, each trimmed if that is asked for, and leaves out those that
are empty unless they can be. -/
theorem splitLoop_eq {sep : Str} (hsep : sep ≠ []) {str : Str} {parts : List Str}
    (h : Pieces sep str parts) (canEmpty needTrim : Bool) :
    splitLoop sep canEmpty needTrim str =
      (parts.map (partOf needTrim)).filter fun part => part ≠ [] ∨ canEmpty := by
  induction h with
  | @last l h =>
      have hfind : find l sep 0 = none := find_of_not h []
      rw [splitLoop]
      split
      · simp only [List.map_cons, List.map_nil, List.filter_cons, List.filter_nil, partOf,
          decide_eq_true_eq]
      · rename_i hsome
        rw [hfind] at hsome
        cases hsome
  | @cut a b parts h _ ih =>
      have hfind : find (a ++ sep ++ b) sep 0 = some a.length := by
        have hfirst := find_first h []
        simpa using hfirst
      rw [splitLoop]
      split
      · rename_i hnone
        rw [hfind] at hnone
        cases hnone
      · rename_i pos hsome
        rw [hfind] at hsome
        obtain rfl := Option.some.inj hsome
        have hpart : substr (a ++ sep ++ b) 0 a.length = a := by
          rw [substr, List.drop_zero, List.append_assoc, List.take_left]
        have hrest : substr (a ++ sep ++ b) (sep.length + a.length)
            ((a ++ sep ++ b).length - sep.length - a.length) = b := by
          have hlen : (a ++ sep).length = sep.length + a.length := by
            rw [List.length_append, Nat.add_comm]
          rw [substr, ← hlen, List.drop_left, List.take_of_length_le]
          simp only [List.length_append]
          omega
        rw [dif_neg hsep, hpart, hrest, ih]
        simp only [List.map_cons, List.filter_cons, partOf, decide_eq_true_eq]

/-- **`ReplaceStr` joins the pieces with the replacement.** What has been dealt with is not looked
at again. -/
theorem replaceLoop_eq {src : Str} (hsrc : src ≠ []) (dst : Str) {rest : Str} {parts : List Str}
    (h : Pieces src rest parts) (done : Str) :
    replaceLoop src dst hsrc (done ++ rest) done.length = done ++ dst.intercalate parts := by
  induction h generalizing done with
  | last h =>
      rw [replaceLoop]
      split
      · simp
      · rename_i hsome
        rw [find_of_not h done] at hsome
        cases hsome
  | @cut a b parts h hb ih =>
      rw [replaceLoop]
      split
      · rename_i hnone
        rw [find_first h] at hnone
        cases hnone
      · rename_i pos hsome
        rw [find_first h] at hsome
        obtain rfl := Option.some.inj hsome
        have hreplace : replace (done ++ (a ++ src ++ b)) (done.length + a.length) src.length dst =
            (done ++ a ++ dst) ++ b := by
          have hlen : done.length + a.length = (done ++ a).length := List.length_append.symm
          have hlen' : (done ++ a).length + src.length = (done ++ a ++ src).length :=
            List.length_append.symm
          have hstr : done ++ (a ++ src ++ b) = done ++ a ++ src ++ b := by simp
          rw [replace, hlen, hlen', hstr, List.drop_left, List.append_assoc _ src b, List.take_left]
        have hpos : done.length + a.length + dst.length = (done ++ a ++ dst).length := by
          simp only [List.length_append]
        rw [hreplace, hpos, ih, List.intercalate_cons_of_ne_nil hb.ne_nil]
        simp only [List.append_assoc]

/-- **`CountStrInStr` counts the cuts.** -/
theorem countLoop_eq {subStr : Str} (hsub : subStr ≠ []) {rest : Str} {parts : List Str}
    (h : Pieces subStr rest parts) (done : Str) (count : BitVec 32) :
    countLoop (done ++ rest) subStr hsub done.length count =
      count + BitVec.ofNat 32 (parts.length - 1) := by
  induction h generalizing done count with
  | last h =>
      rw [countLoop]
      split
      · simp
      · rename_i hsome
        rw [find_of_not h done] at hsome
        cases hsome
  | @cut a b parts h hb ih =>
      rw [countLoop]
      split
      · rename_i hnone
        rw [find_first h] at hnone
        cases hnone
      · rename_i pos hsome
        rw [find_first h] at hsome
        obtain rfl := Option.some.inj hsome
        have hstr : done ++ (a ++ subStr ++ b) = (done ++ a ++ subStr) ++ b := by simp
        have hpos : done.length + a.length + subStr.length = (done ++ a ++ subStr).length := by
          simp only [List.length_append]
        have hlen := List.length_pos_iff.2 hb.ne_nil
        rw [hstr, hpos, ih, List.length_cons, Nat.add_sub_cancel]
        have hcount : parts.length = parts.length - 1 + 1 := by omega
        have hone : BitVec.ofNat 32 (parts.length - 1 + 1) = 1 + BitVec.ofNat 32 (parts.length - 1) := by
          rw [BitVec.ofNat_add, BitVec.add_comm]
          rfl
        rw [hcount, Nat.add_sub_cancel, hone, BitVec.add_assoc]

/-! ## Agreement -/

/-- Without trimming and with empty parts, the parts are the pieces. -/
theorem splitStr_eq {str sep : Str} (hsep : sep ≠ []) {parts : List Str}
    (h : Pieces sep str parts) : splitStr str sep true false = parts := by
  rw [splitStr]
  simp only [Bool.false_eq_true, if_false]
  have hpart : partOf false = id := rfl
  rw [splitLoop_eq hsep h, hpart]
  simp

theorem replaceStr_eq {str src : Str} (hsrc : src ≠ []) (dst : Str) {parts : List Str}
    (h : Pieces src str parts) : replaceStr str src dst = dst.intercalate parts := by
  rw [replaceStr, dif_neg hsrc]
  exact replaceLoop_eq hsrc dst h []

theorem countStrInStr_eq {str subStr : Str} (hsub : subStr ≠ []) {parts : List Str}
    (h : Pieces subStr str parts) :
    countStrInStr str subStr = BitVec.ofNat 32 (parts.length - 1) := by
  rw [countStrInStr, dif_neg hsub]
  have hcount := countLoop_eq hsub h [] 0#32
  rwa [BitVec.zero_add] at hcount

/-- **Splitting, counting and replacing agree**, for every string, separator and replacement. The
loops are total functions; the length of the string keeps the count in an `int`. -/
theorem split_count_replace (str sep dst : Str) (hlen : str.length < 2 ^ 31) (hsep : sep ≠ []) :
    let parts := splitStr str sep true false
    sep.intercalate parts = str ∧ (∀ part ∈ parts, ¬ sep <:+: part) ∧
      (parts.length : Int) = (countStrInStr str sep).toInt + 1 ∧
      replaceStr str sep dst = dst.intercalate parts := by
  obtain ⟨parts, hparts⟩ := exists_pieces hsep str
  intro parts'
  have hsplit : parts' = parts := splitStr_eq hsep hparts
  rw [hsplit]
  refine ⟨hparts.join, hparts.not_infix hsep, ?_, replaceStr_eq hsep dst hparts⟩
  have hpos := List.length_pos_iff.2 hparts.ne_nil
  have hle := hparts.length_le hsep
  have hcount : (BitVec.ofNat 32 (parts.length - 1)).toInt = ((parts.length - 1 : Nat) : Int) := by
    rw [BitVec.toInt_eq_toNat_of_lt (by rw [BitVec.toNat_ofNat]; omega), BitVec.toNat_ofNat]
    omega
  rw [countStrInStr_eq hsep hparts, hcount]
  omega

/-- `121` in `121213`, where it overlaps itself, replaced by something that has it in it. -/
theorem split_count_replace_overlapping :
    let parts := splitStr [1, 2, 1, 2, 1, 3] [1, 2, 1] true false
    parts = [[], [2, 1, 3]] ∧ (countStrInStr [1, 2, 1, 2, 1, 3] [1, 2, 1]).toInt = 1 ∧
      replaceStr [1, 2, 1, 2, 1, 3] [1, 2, 1] [1, 2, 1, 1] = [1, 2, 1, 1, 2, 1, 3] := by
  have hsplit : splitStr [1, 2, 1, 2, 1, 3] [1, 2, 1] true false = [[], [2, 1, 3]] := by
    decide +kernel
  obtain ⟨-, -, hcount, hreplace⟩ :=
    split_count_replace [1, 2, 1, 2, 1, 3] [1, 2, 1] [1, 2, 1, 1] (by decide) (by decide)
  rw [hsplit] at hcount hreplace
  refine ⟨hsplit, ?_, hreplace⟩
  simp only [List.length_cons, List.length_nil] at hcount
  omega

end CUtils.StringEx
