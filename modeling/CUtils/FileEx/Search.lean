import CUtils.FileEx.Loaders
import CUtils.StringEx.Split

/-!
# Searching files

`StringExistsInFile` and `CountStrInFile` load the file and search its text, both in lower case if
case does not matter. `CountStrInFile` goes on behind each occurrence it has found; that is as many
occurrences as can be had without two of them overlapping.
-/

namespace CUtils.FileEx

open StringEx Substring

/-- `::tolower` in the C locale. -/
def tolower (ch : UInt8) : UInt8 := if 0x41 ≤ ch ∧ ch ≤ 0x5A then ch + 0x20 else ch

/-- The text that is searched for and in. -/
def fold (caseSensitive : Bool) (str : Str) : Str := if caseSensitive then str else str.map tolower

variable (sys : System)

def stringExistsInFile (fileName : String) (subStr : Str) (caseSensitive : Bool) : Bool :=
  if subStr = [] then false
  else
    match loadStringFromFile sys fileName [] with
    | (false, _) => false
    | (true, str) =>
        if caseSensitive then (find str subStr 0).isSome
        else (find (str.map tolower) (subStr.map tolower) 0).isSome

def countStrInFile (fileName : String) (subStr : Str) (caseSensitive : Bool) : Int :=
  if subStr = [] then -1
  else
    match loadStringFromFile sys fileName [] with
    | (false, _) => -1
    | (true, str) =>
        if caseSensitive then (countStrInStr str subStr).toInt
        else (countStrInStr (str.map tolower) (subStr.map tolower)).toInt

variable {sys}

/-! ## What is searched -/

/-- A file that opens is loaded if its length is not found to be too large. -/
theorem loadStringFromFile_of_opens {path : String} {f : File} (hopen : sys.opens path = some f)
    (content : List UInt8) : loadStringFromFile sys path content =
      if lseekEnd f > maxFileLength then (false, content) else (true, f.bytes) := by
  simp only [loadStringFromFile, hopen, tellg_end, seek_rest, List.nil_append]

theorem stringExistsInFile_eq {path : String} {f : File} (hopen : sys.opens path = some f)
    (hload : lseekEnd f ≤ maxFileLength) {subStr : Str} (hsub : subStr ≠ []) (caseSensitive : Bool) :
    stringExistsInFile sys path subStr caseSensitive =
      (find (fold caseSensitive f.bytes) (fold caseSensitive subStr) 0).isSome := by
  rw [stringExistsInFile, if_neg hsub, loadStringFromFile_of_opens hopen,
    if_neg (Int.not_lt.2 hload)]
  cases caseSensitive <;> rfl

theorem countStrInFile_eq {path : String} {f : File} (hopen : sys.opens path = some f)
    (hload : lseekEnd f ≤ maxFileLength) {subStr : Str} (hsub : subStr ≠ []) (caseSensitive : Bool) :
    countStrInFile sys path subStr caseSensitive =
      (countStrInStr (fold caseSensitive f.bytes) (fold caseSensitive subStr)).toInt := by
  rw [countStrInFile, if_neg hsub, loadStringFromFile_of_opens hopen, if_neg (Int.not_lt.2 hload)]
  cases caseSensitive <;> rfl

theorem length_fold (caseSensitive : Bool) (str : Str) :
    (fold caseSensitive str).length = str.length := by
  rw [fold]
  split
  · rfl
  · exact List.length_map _

theorem fold_ne_nil {caseSensitive : Bool} {str : Str} (h : str ≠ []) :
    fold caseSensitive str ≠ [] := by
  rw [← List.length_pos_iff, length_fold]
  exact List.length_pos_iff.2 h

/-! ## What is counted -/

/-- The count is that of some occurrences apart from each other, and of no fewer than any others. -/
structure MostApart (subStr str : Str) (n : Int) : Prop where
  attained : ∃ ps, Apart subStr str ps ∧ (ps.length : Int) = n
  most : ∀ ps, Apart subStr str ps → (ps.length : Int) ≤ n

theorem countStrInStr_most {str subStr : Str} (hsub : subStr ≠ []) (hlen : str.length < 2 ^ 31) :
    MostApart subStr str (countStrInStr str subStr).toInt := by
  obtain ⟨parts, hparts⟩ := exists_pieces hsub str
  have hle := hparts.length_le hsub
  have hpos := List.length_pos_iff.2 hparts.ne_nil
  have hcount : (countStrInStr str subStr).toInt = ((parts.length - 1 : Nat) : Int) := by
    rw [countStrInStr_eq hsub hparts, BitVec.toInt_eq_toNat_of_lt (by rw [BitVec.toNat_ofNat]; omega),
      BitVec.toNat_ofNat, Nat.mod_eq_of_lt (by omega)]
  rw [hcount]
  constructor
  · obtain ⟨ps, hps, hlength⟩ := hparts.exists_apart
    exact ⟨ps, hps, by omega⟩
  · intro ps hps
    have := hparts.apart_le hps
    omega

/-- Something is found if and only if something is counted. -/
theorem find_isSome_iff {str subStr : Str} {n : Int} (h : MostApart subStr str n) :
    (find str subStr 0).isSome = true ↔ 0 < n := by
  have hfind : find str subStr 0 = (firstIndex subStr str).map (0 + ·) := by
    rw [find, if_pos (Nat.zero_le _), List.drop_zero]
  rw [hfind, Option.isSome_map]
  cases hi : firstIndex subStr str with
  | some i =>
      refine iff_of_true rfl ?_
      have hone : Apart subStr str [i] := by
        refine ⟨List.pairwise_singleton _ i, fun j hj => ?_⟩
        rw [List.mem_singleton.1 hj]
        exact (FirstFrom.of_firstIndex hi).occurs
      have hle := h.most [i] hone
      rw [List.length_singleton] at hle
      omega
  | none =>
      refine iff_of_false Bool.false_ne_true fun hpos => ?_
      obtain ⟨ps, hps, hlength⟩ := h.attained
      cases ps with
      | nil =>
          rw [List.length_nil] at hlength
          omega
      | cons i ps => exact not_occursAt_of_firstIndex hi i (hps.occurs i (by simp))

/-- **`CountStrInFile` counts the most occurrences that do not overlap**, in a file whose text it can
count with an `int`, and `StringExistsInFile` says whether there are any; for a file that is refused
both report failure. -/
theorem count_in_file (path : String) (f : File) (subStr : Str) (caseSensitive : Bool)
    (hopen : sys.opens path = some f) (hsub : subStr ≠ []) (hlen : f.bytes.length < 2 ^ 31) :
    (lseekEnd f ≤ maxFileLength →
      MostApart (fold caseSensitive subStr) (fold caseSensitive f.bytes)
        (countStrInFile sys path subStr caseSensitive)) ∧
    (lseekEnd f > maxFileLength → countStrInFile sys path subStr caseSensitive = -1) ∧
    (stringExistsInFile sys path subStr caseSensitive = true ↔
      0 < countStrInFile sys path subStr caseSensitive) := by
  by_cases hload : lseekEnd f ≤ maxFileLength
  · have hmost : MostApart (fold caseSensitive subStr) (fold caseSensitive f.bytes)
        (countStrInFile sys path subStr caseSensitive) := by
      rw [countStrInFile_eq hopen hload hsub]
      exact countStrInStr_most (fold_ne_nil hsub) (by rw [length_fold]; exact hlen)
    refine ⟨fun _ => hmost, fun hover => absurd hover (Int.not_lt.2 hload), ?_⟩
    rw [stringExistsInFile_eq hopen hload hsub]
    exact find_isSome_iff hmost
  · have hover : lseekEnd f > maxFileLength := Int.not_le.1 hload
    have hcount : countStrInFile sys path subStr caseSensitive = -1 := by
      rw [countStrInFile, if_neg hsub, loadStringFromFile_of_opens hopen, if_pos hover]
    have hexists : stringExistsInFile sys path subStr caseSensitive = false := by
      rw [stringExistsInFile, if_neg hsub, loadStringFromFile_of_opens hopen, if_pos hover]
    refine ⟨fun hle => absurd hle hload, fun _ => hcount, ?_⟩
    rw [hcount, hexists]
    exact iff_of_false Bool.false_ne_true (by decide)

/-- `AxA` in `aXaxa`: of the two occurrences that overlap one is counted. -/
theorem count_in_file_overlapping :
    MostApart [0x61, 0x78, 0x61] [0x61, 0x78, 0x61, 0x78, 0x61]
      (countStrInFile (oneFile ⟨[0x61, 0x58, 0x61, 0x78, 0x61], true⟩) "a" [0x41, 0x78, 0x41] false) :=
  (@count_in_file (oneFile ⟨[0x61, 0x58, 0x61, 0x78, 0x61], true⟩) "a" _ [0x41, 0x78, 0x41] false rfl
    (by decide) (by decide)).1 (by decide)

end CUtils.FileEx
