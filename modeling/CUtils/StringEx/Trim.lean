import CUtils.StringEx.Split
import Mathlib.Data.List.DropRight

/-!
# Trimming

`TrimStr` looks for the first and for the last character to keep and takes "there is none" for
"there is nothing to trim"; only a string of one character is looked at before. So it trims every
string (`trimmed`) but those of two or more of the trimmed character and nothing else (`Solid`),
which it returns as they are. `SplitStr` trims the string and then each piece of it, and a solid
piece is stored as a part.
-/

namespace CUtils.StringEx

open Substring

/-- The string without its longest prefix and suffix of `c`. -/
def trimmed (str : Str) (c : UInt8) : Str := (str.dropWhile (· == c)).rdropWhile (· == c)

/-- Two characters or more, and all of them `c`. -/
def Solid (str : Str) (c : UInt8) : Prop := 2 ≤ str.length ∧ ∀ ch ∈ str, ch = c

instance (str : Str) (c : UInt8) : Decidable (Solid str c) :=
  inferInstanceAs (Decidable (_ ∧ _))

/-! ## The two searches -/

/-- Erasing in front of the first character to keep. -/
theorem drop_findFirstNotOf {str : Str} {c : UInt8} {firstBound : Nat}
    (h : findFirstNotOf str c = some firstBound) :
    str.drop firstBound = str.dropWhile (· == c) := by
  rw [findFirstNotOf, List.findIdx?_eq_some_iff_findIdx_eq] at h
  rw [List.dropWhile_eq_drop_findIdx_not, ← h.2]
  rfl

/-- Erasing behind the last character to keep. -/
theorem take_findLastNotOf {str : Str} {c : UInt8} {lastBound : Nat}
    (h : findLastNotOf str c = some lastBound) :
    lastBound < str.length ∧ str.take (lastBound + 1) = str.rdropWhile (· == c) := by
  rw [findLastNotOf] at h
  obtain ⟨k, hk, rfl⟩ := Option.map_eq_some_iff.1 h
  rw [List.findIdx?_eq_some_iff_findIdx_eq, List.length_reverse] at hk
  obtain ⟨hlt, hk⟩ := hk
  have hdrop : str.reverse.dropWhile (· == c) = str.reverse.drop k := by
    rw [List.dropWhile_eq_drop_findIdx_not, ← hk]
    rfl
  have hbound : str.length - 1 - k + 1 = str.length - k := by omega
  refine ⟨by omega, ?_⟩
  rw [hbound, List.rdropWhile, hdrop, List.drop_reverse, List.reverse_reverse]

theorem findFirstNotOf_none {str : Str} {c : UInt8} :
    findFirstNotOf str c = none ↔ ∀ ch ∈ str, ch = c := by
  rw [findFirstNotOf, List.findIdx?_eq_none_iff]
  simp

theorem findLastNotOf_none {str : Str} {c : UInt8} :
    findLastNotOf str c = none ↔ ∀ ch ∈ str, ch = c := by
  rw [findLastNotOf, Option.map_eq_none_iff, List.findIdx?_eq_none_iff]
  simp

/-! ## What is returned -/

theorem trimmed_eq_nil {str : Str} {c : UInt8} : trimmed str c = [] ↔ ∀ ch ∈ str, ch = c := by
  rw [trimmed, List.rdropWhile_eq_nil_iff]
  constructor
  · intro h
    have hdrop : str.dropWhile (· == c) = [] := by
      by_contra hne
      have hhead := List.head_dropWhile_not (· == c) hne
      exact absurd (h _ (List.head_mem hne)) (by simpa using hhead)
    simpa using List.dropWhile_eq_nil_iff.1 hdrop
  · intro h ch hch
    have hmem : ch ∈ str := (List.dropWhile_sublist _).subset hch
    simpa using h ch hmem

/-- **What `TrimStr` returns**: the trimmed string, unless the string is solid. -/
theorem trimStr_eq (str : Str) (c : UInt8) :
    trimStr str c = if Solid str c then str else trimmed str c := by
  rw [trimStr]
  split
  · -- one character, and it is trimmed
    rename_i hone
    obtain ⟨ch, rfl⟩ := List.length_eq_one_iff.1 hone.1
    obtain rfl : ch = c := by simpa using hone.2
    rw [if_neg (by simp [Solid]), trimmed_eq_nil.2 (by simp)]
  · rename_i hone
    cases hfirst : findFirstNotOf str c with
    | none =>
        -- every character is `c`: neither search finds a bound
        have hall := findFirstNotOf_none.1 hfirst
        simp only [findLastNotOf_none.2 hall]
        by_cases hsolid : Solid str c
        · rw [if_pos hsolid]
        · rw [if_neg hsolid, trimmed_eq_nil.2 hall]
          cases str with
          | nil => rfl
          | cons ch rest =>
              have hlen : rest.length = 0 := by
                by_contra hpos
                exact hsolid ⟨by simp only [List.length_cons]; omega, hall⟩
              exact absurd ⟨by simp [hlen], by simpa using hall ch (by simp)⟩ hone
    | some firstBound =>
        have hnot : ¬ Solid str c := by
          rintro ⟨-, hall⟩
          rw [findFirstNotOf_none.2 hall] at hfirst
          cases hfirst
        rw [if_neg hnot, trimmed, ← drop_findFirstNotOf hfirst]
        simp only
        cases hlast : findLastNotOf (str.drop firstBound) c with
        | none =>
            -- what is left would be trimmed whole, though the first search has found a bound
            have hall := findLastNotOf_none.1 hlast
            rw [drop_findFirstNotOf hfirst] at hall
            have hnil : trimmed str c = [] := List.rdropWhile_eq_nil_iff.2 (by simpa using hall)
            rw [findFirstNotOf_none.2 (trimmed_eq_nil.1 hnil)] at hfirst
            cases hfirst
        | some lastBound =>
            obtain ⟨hlt, htake⟩ := take_findLastNotOf hlast
            rw [← htake]
            simp only
            split
            · rfl
            · rename_i hend
              rw [List.take_of_length_le (by omega)]

/-- A part that begins and ends with something else than `c`. -/
def Trim (part : Str) (c : UInt8) : Prop := part.head? ≠ some c ∧ part.getLast? ≠ some c

theorem trim_trimmed (str : Str) (c : UInt8) : Trim (trimmed str c) c := by
  constructor
  · intro hhead
    -- a prefix of what has been trimmed in front begins as that does
    obtain ⟨rest, hrest⟩ := List.rdropWhile_prefix (· == c) (str.dropWhile (· == c))
    have hne : str.dropWhile (· == c) ≠ [] := by
      intro hnil
      rw [trimmed, hnil] at hhead
      simp at hhead
    have hsame : (str.dropWhile (· == c)).head? = some c := by
      rw [trimmed] at hhead
      rw [← hrest, List.head?_append, hhead]
      rfl
    have hnot := List.head_dropWhile_not (· == c) hne
    rw [List.head?_eq_some_head hne, Option.some.injEq] at hsame
    simp [hsame] at hnot
  · intro hlast
    have hne : trimmed str c ≠ [] := by
      intro hnil
      simp [hnil] at hlast
    have hnot := List.rdropWhile_last_not (· == c) (str.dropWhile (· == c)) hne
    rw [List.getLast?_eq_some_getLast hne, Option.some.injEq] at hlast
    exact hnot (by simpa [trimmed] using hlast)

theorem trimmed_of_trim {str : Str} {c : UInt8} (h : Trim str c) : trimmed str c = str := by
  obtain ⟨hhead, hlast⟩ := h
  have hfront : str.dropWhile (· == c) = str := by
    cases str with
    | nil => rfl
    | cons ch rest => exact List.dropWhile_cons_of_neg (by simpa using hhead)
  rw [trimmed, hfront, List.rdropWhile_eq_self_iff]
  intro hne hc
  rw [List.getLast?_eq_some_getLast hne] at hlast
  exact hlast (by simpa using hc)

/-- A solid string is not empty, and begins with `c`. -/
theorem Solid.head {str : Str} {c : UInt8} (h : Solid str c) : str.head? = some c := by
  obtain ⟨hlen, hall⟩ := h
  cases str with
  | nil => simp at hlen
  | cons ch rest => simpa using hall ch (by simp)

theorem trimStr_idempotent (str : Str) (c : UInt8) :
    trimStr (trimStr str c) c = trimStr str c := by
  rw [trimStr_eq str c]
  split
  · rename_i hsolid
    rw [trimStr_eq, if_pos hsolid]
  · have hnot : ¬ Solid (trimmed str c) c := fun hsolid => (trim_trimmed str c).1 hsolid.head
    rw [trimStr_eq, if_neg hnot, trimmed_of_trim (trim_trimmed str c)]

theorem trimStr_eq_trimmed_iff (str : Str) (c : UInt8) :
    trimStr str c = trimmed str c ↔ ¬ Solid str c := by
  rw [trimStr_eq]
  constructor
  · intro h hsolid
    rw [if_pos hsolid] at h
    have hnil : trimmed str c = [] := trimmed_eq_nil.2 hsolid.2
    have hhead := hsolid.head
    rw [h, hnil] at hhead
    cases hhead
  · intro hnot
    rw [if_neg hnot]

/-! ## Splitting with trimming -/

/-- The pieces of a string between the separators; the empty separator separates nothing. -/
def Segments (sep str : Str) (parts : List Str) : Prop :=
  (sep = [] ∧ parts = [str]) ∨ (sep ≠ [] ∧ Pieces sep str parts)

theorem exists_segments (sep str : Str) : ∃ parts, Segments sep str parts := by
  by_cases hsep : sep = []
  · exact ⟨[str], .inl ⟨hsep, rfl⟩⟩
  · obtain ⟨parts, hparts⟩ := exists_pieces hsep str
    exact ⟨parts, .inr ⟨hsep, hparts⟩⟩

theorem splitLoop_segments {sep str : Str} {parts : List Str} (h : Segments sep str parts)
    (canEmpty needTrim : Bool) :
    splitLoop sep canEmpty needTrim str =
      (parts.map (partOf needTrim)).filter fun part => part ≠ [] ∨ canEmpty := by
  obtain ⟨rfl, rfl⟩ | ⟨hsep, hparts⟩ := h
  · rw [splitLoop]
    split <;>
      simp only [dif_pos, List.map_cons, List.map_nil, List.filter_cons, List.filter_nil, partOf,
        decide_eq_true_eq]
  · exact splitLoop_eq hsep hparts canEmpty needTrim

/-- Without the blanks around it, unless it is nothing but two blanks or more. -/
def stripped (str : Str) : Str := if Solid str blank then str else trimmed str blank

/-- A part that is not empty and does not begin or end with a blank. -/
def Clean (part : Str) : Prop := part ≠ [] ∧ Trim part blank

/-- What is stored of a piece is clean, or left out as empty, unless the piece is solid. -/
theorem clean_partOf_iff (piece : Str) :
    (partOf true piece ≠ [] → Clean (partOf true piece)) ↔ ¬ Solid piece blank := by
  have hpart : partOf true piece = if Solid piece blank then piece else trimmed piece blank :=
    trimStr_eq piece blank
  rw [hpart]
  by_cases hsolid : Solid piece blank
  · rw [if_pos hsolid]
    refine iff_of_false (fun h => ?_) (not_not.2 hsolid)
    have hne : piece ≠ [] := by
      rintro rfl
      exact absurd hsolid.head (by simp)
    exact (h hne).2.1 hsolid.head
  · rw [if_neg hsolid]
    exact iff_of_true (fun hne => ⟨hne, trim_trimmed piece blank⟩) hsolid

/-- The parts are clean when no piece is solid, and then only. -/
theorem splitStr_clean_iff (str sep : Str) :
    (∀ part ∈ splitStr str sep false true, Clean part) ↔
      ∀ parts, Segments sep (stripped str) parts → ∀ piece ∈ parts, ¬ Solid piece blank := by
  have hsplit : ∀ parts, Segments sep (stripped str) parts →
      ((∀ part ∈ splitStr str sep false true, Clean part) ↔
        ∀ piece ∈ parts, ¬ Solid piece blank) := by
    intro parts hparts
    have hstr : splitStr str sep false true =
        (parts.map (partOf true)).filter fun part => part ≠ [] ∨ false := by
      rw [splitStr, if_pos rfl, trimStr_eq]
      exact splitLoop_segments hparts false true
    rw [hstr]
    simp only [List.mem_filter, List.mem_map, Bool.false_eq_true, or_false, decide_eq_true_eq,
      and_imp, forall_exists_index, forall_apply_eq_imp_iff₂]
    exact forall₂_congr fun piece _ => clean_partOf_iff piece
  constructor
  · intro h parts hparts
    exact (hsplit parts hparts).1 h
  · intro h
    obtain ⟨parts, hparts⟩ := exists_segments sep (stripped str)
    exact (hsplit parts hparts).2 (h parts hparts)

/-- **When `TrimStr` trims.** It does so for every string that is not solid, and for no other; it is
idempotent for every string; and `SplitStr` yields clean parts exactly when no piece is solid. -/
theorem trims_iff (str sep : Str) (c : UInt8) :
    (trimStr str c = trimmed str c ↔ ¬ Solid str c) ∧
      trimStr (trimStr str c) c = trimStr str c ∧
      ((∀ part ∈ splitStr str sep false true, Clean part) ↔
        ∀ parts, Segments sep (stripped str) parts → ∀ piece ∈ parts, ¬ Solid piece blank) :=
  ⟨trimStr_eq_trimmed_iff str c, trimStr_idempotent str c, splitStr_clean_iff str sep⟩

/-- `TrimStr` of two blanks gives two blanks, and `SplitStr` of `A,  , B` a part of two blanks. -/
theorem two_blanks_kept :
    trimStr [0x20, 0x20] 0x20 = [0x20, 0x20] ∧ trimmed [0x20, 0x20] 0x20 = [] ∧
      splitStr [0x41, 0x2C, 0x20, 0x20, 0x2C, 0x20, 0x42] [0x2C] false true =
        [[0x41], [0x20, 0x20], [0x42]] := by
  decide +kernel

end CUtils.StringEx
