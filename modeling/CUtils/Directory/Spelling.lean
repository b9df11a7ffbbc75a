import CUtils.Directory.Model
import CUtils.Lib.Delimiter

/-!
# Paths as strings

`GetDirFiles` and `ChangeModeDirectory` put path names together from a root as the caller spells it
and the names of the entries. A root may end in slashes, so what they build equals the root joined
with the names (`spelled`) up to repeated slashes only.

`GetDirFiles` keeps one string for the directory it is in. `Matches` says that such a string belongs
to a directory: it is the string of the parent, a slash and the name. This is kept when a directory
is entered, which puts a slash in only where there is none, and when it is left, which cuts the
string at its last slash.
-/

namespace CUtils.Directory

open Delimiter

/-- A `std::string`. -/
abbrev Str := List Char

/-! ## `std::string` -/

/-- `path.rfind("/")`, and `path.find_last_of("/")`; `none` is `npos`. -/
def rfind (path : Str) : Option Nat := lastIndex '/' path

/-- `path.size() - 1`, which is `npos` for the empty string. -/
def lastPos (path : Str) : Option Nat := if path.isEmpty then none else some (path.length - 1)

/-! ## `directory_ex.cpp` -/

def excludeTrailingPathDelimiter (path : Str) : Str :=
  if rfind path ≠ lastPos path then path
  else if !path.isEmpty then path.take (path.length - 1)
  else path

def includeTrailingPathDelimiter (path : Str) : Str :=
  if path.isEmpty then ['/']
  else if rfind path ≠ lastPos path then path ++ ['/']
  else path

/-- `currentPath.erase(pos)` at the last slash, if there is one. -/
def cutLast (currentPath : Str) : Str :=
  match rfind currentPath with
  | none => currentPath
  | some pos => currentPath.take pos

/-! ## Names -/

/-- What can stand in a directory: a name is not empty and has no slash in it. -/
def FileName (name : String) : Prop := name.toList ≠ [] ∧ '/' ∉ name.toList

instance (name : String) : Decidable (FileName name) := inferInstanceAs (Decidable (_ ∧ _))

def Entries.Named : Entries → Prop
  | nil => True
  | dots rest => rest.Named
  | file name rest => FileName name ∧ rest.Named
  | dir name sub rest => FileName name ∧ sub.Named ∧ rest.Named

/-- The root joined with the names along the way. -/
def spelled (root : Str) : Path → Str
  | [] => root
  | name :: p => spelled root p ++ '/' :: name.toList

/-! ## Trailing delimiters -/

theorem rfind_concat (path : Str) (c : Char) :
    rfind (path ++ [c]) = lastPos (path ++ [c]) ↔ c = '/' := by
  have hpos : lastPos (path ++ [c]) = some path.length := by simp [lastPos]
  rw [hpos]
  exact lastIndex_concat

theorem excludeTrailing_concat (path : Str) (c : Char) :
    excludeTrailingPathDelimiter (path ++ [c]) = if c = '/' then path else path ++ [c] := by
  rw [excludeTrailingPathDelimiter]
  by_cases hc : c = '/'
  · rw [if_neg (not_not.2 ((rfind_concat path c).2 hc)), if_pos hc, if_pos (by simp)]
    simp
  · rw [if_pos (mt (rfind_concat path c).1 hc), if_neg hc]

theorem includeTrailing_concat (path : Str) (c : Char) :
    includeTrailingPathDelimiter (path ++ [c]) =
      if c = '/' then path ++ [c] else path ++ [c] ++ ['/'] := by
  rw [includeTrailingPathDelimiter, if_neg (by simp)]
  by_cases hc : c = '/'
  · rw [if_neg (not_not.2 ((rfind_concat path c).2 hc)), if_pos hc]
  · rw [if_pos (mt (rfind_concat path c).1 hc), if_neg hc]

/-- Behind a name there is no delimiter yet. -/
theorem trailing_name {name : String} (hname : FileName name) (path : Str) :
    excludeTrailingPathDelimiter (path ++ name.toList) = path ++ name.toList ∧
      includeTrailingPathDelimiter (path ++ name.toList) = path ++ name.toList ++ ['/'] := by
  obtain ⟨hne, hslash⟩ := hname
  rcases List.eq_nil_or_concat name.toList with hnil | ⟨init, c, hconcat⟩
  · exact absurd hnil hne
  · rw [List.concat_eq_append] at hconcat
    have hc : c ≠ '/' := by
      rintro rfl
      exact hslash (by simp [hconcat])
    rw [hconcat, ← List.append_assoc, excludeTrailing_concat, includeTrailing_concat, if_neg hc,
      if_neg hc]
    exact ⟨rfl, rfl⟩

theorem excludeTrailing_similar (path : Str) :
    Similar '/' (excludeTrailingPathDelimiter path ++ ['/']) (path ++ ['/']) := by
  rcases List.eq_nil_or_concat path with rfl | ⟨init, c, rfl⟩
  · rfl
  · rw [List.concat_eq_append, excludeTrailing_concat]
    by_cases hc : c = '/'
    · rw [if_pos hc, hc, List.append_assoc]
      exact similar_double init
    · rw [if_neg hc]
      rfl

/-! ## The path of the walk -/

/-- The string belongs to the directory, below a root that is spelled `root`. -/
inductive Matches (root : Str) : Str → Path → Prop
  | root {c : Str} (h : Similar '/' (c ++ ['/']) (root ++ ['/'])) : Matches root c []
  | sub {c : Str} {p : Path} {name : String} (hname : FileName name) (h : Matches root c p) :
      Matches root (c ++ '/' :: name.toList) (name :: p)

namespace Matches

variable {root c : Str} {p : Path} {name : String}

theorem start (root : Str) : Matches root (excludeTrailingPathDelimiter root) [] :=
  .root (excludeTrailing_similar root)

theorem similar (h : Matches root c p) : Similar '/' (c ++ ['/']) (spelled root p ++ ['/']) := by
  induction h with
  | root h => exact h
  | @sub c p name _ _ ih =>
      have happend := ih.append (name.toList ++ ['/'])
      simpa [spelled] using happend

/-- The string ends in a slash at the root only, and there one slash can be taken off. -/
theorem include_eq (h : Matches root c p) :
    ∃ c', includeTrailingPathDelimiter c = c' ++ ['/'] ∧ Matches root c' p := by
  cases h with
  | root h =>
      rcases List.eq_nil_or_concat c with rfl | ⟨init, a, rfl⟩
      · exact ⟨[], rfl, .root h⟩
      · rw [List.concat_eq_append] at h ⊢
        rw [includeTrailing_concat]
        by_cases ha : a = '/'
        · rw [if_pos ha, ha]
          rw [ha, List.append_assoc] at h
          exact ⟨init, rfl, .root ((similar_double init).trans h)⟩
        · rw [if_neg ha]
          exact ⟨init ++ [a], rfl, .root h⟩
  | @sub c p name hname h =>
      refine ⟨c ++ '/' :: name.toList, ?_, .sub hname h⟩
      have htrailing := (trailing_name hname (c ++ ['/'])).2
      simpa using htrailing

theorem enter (h : Matches root c p) (hname : FileName name) :
    Matches root (includeTrailingPathDelimiter c ++ name.toList) (name :: p) := by
  obtain ⟨c', hc', h'⟩ := h.include_eq
  rw [hc', List.append_assoc]
  exact .sub hname h'

theorem leave (h : Matches root c (name :: p)) : Matches root (cutLast c) p := by
  cases h with
  | @sub c _ _ hname h =>
      have hlast : rfind (c ++ '/' :: name.toList) = some c.length :=
        lastIndex_append_cons c hname.2
      rw [cutLast, hlast]
      simpa using h

/-- What is put together for an entry is the root joined with the names. -/
theorem entry (h : Matches root c p) (name : String) :
    Similar '/' (includeTrailingPathDelimiter c ++ name.toList) (spelled root (name :: p)) := by
  obtain ⟨c', hc', h'⟩ := h.include_eq
  have happend := h'.similar.append name.toList
  rw [hc']
  simpa [spelled] using happend

end Matches

end CUtils.Directory
