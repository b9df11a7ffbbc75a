import Mathlib.Data.List.Basic

/-!
# Delimiters

Strings over any alphabet with one letter `d` that delimits. Two strings are `Similar` if they are
equal after every run of delimiters has been squeezed to one. Similar strings stay similar with
something appended, since what a string contributes there is its squeezed form and whether it ends
in a delimiter, and the one tells the other.
-/

namespace CUtils.Delimiter

variable {α : Type} [DecidableEq α] (d : α)

/-- Leave out every delimiter that follows a delimiter; `after` tells if one stands before. -/
def squeezeFrom (after : Bool) : List α → List α
  | [] => []
  | a :: l =>
      if a = d then if after then squeezeFrom true l else a :: squeezeFrom true l
      else a :: squeezeFrom false l

def squeeze (l : List α) : List α := squeezeFrom d false l

/-- The last letter is a delimiter, or there is none and `after` holds. -/
def endsIn (after : Bool) : List α → Bool
  | [] => after
  | a :: l => endsIn (a = d) l

/-- Equal up to repeated delimiters. -/
def Similar (x y : List α) : Prop := squeeze d x = squeeze d y

/-- The position of the last delimiter. -/
def lastIndex (l : List α) : Option Nat :=
  (l.reverse.findIdx? (· = d)).map (l.length - 1 - ·)

variable {d}

/-! ## Squeezing -/

theorem squeezeFrom_append (after : Bool) (x y : List α) :
    squeezeFrom d after (x ++ y) = squeezeFrom d after x ++ squeezeFrom d (endsIn d after x) y := by
  induction x generalizing after with
  | nil => rfl
  | cons a x ih =>
      rw [List.cons_append, squeezeFrom, squeezeFrom, endsIn, ih, ih]
      by_cases ha : a = d
      · rw [if_pos ha, if_pos ha, decide_eq_true ha]
        cases after <;> rfl
      · rw [if_neg ha, if_neg ha, decide_eq_false ha]
        rfl

/-- Squeezing does not change how a string ends. -/
theorem endsIn_squeezeFrom (after : Bool) (x : List α) :
    endsIn d after (squeezeFrom d after x) = endsIn d after x := by
  induction x generalizing after with
  | nil => rfl
  | cons a x ih =>
      rw [squeezeFrom, endsIn]
      by_cases ha : a = d
      · rw [if_pos ha, decide_eq_true ha]
        cases after with
        | true => exact ih true
        | false =>
            show endsIn d (decide (a = d)) (squeezeFrom d true x) = endsIn d true x
            rw [decide_eq_true ha, ih]
      · rw [if_neg ha, decide_eq_false ha, endsIn, decide_eq_false ha, ih]

theorem Similar.append {x y : List α} (h : Similar d x y) (z : List α) :
    Similar d (x ++ z) (y ++ z) := by
  have hends : endsIn d false x = endsIn d false y := by
    rw [← endsIn_squeezeFrom, ← endsIn_squeezeFrom false y]
    exact congrArg (endsIn d false) h
  rw [Similar, squeeze, squeeze, squeezeFrom_append, squeezeFrom_append, hends]
  exact congrArg (· ++ _) h

/-- A second delimiter makes no difference. -/
theorem similar_double (x : List α) : Similar d (x ++ [d]) (x ++ [d, d]) := by
  rw [Similar, squeeze, squeeze, squeezeFrom_append, squeezeFrom_append]
  cases endsIn d false x <;> simp [squeezeFrom]

/-! ## The last delimiter -/

theorem lastIndex_append_cons (x : List α) {y : List α} (h : d ∉ y) :
    lastIndex d (x ++ d :: y) = some x.length := by
  have hnone : y.reverse.findIdx? (· = d) = none := by
    rw [List.findIdx?_eq_none_iff]
    intro a ha
    rw [decide_eq_false_iff_not]
    rintro rfl
    exact h (List.mem_reverse.1 ha)
  rw [lastIndex, List.reverse_append, List.reverse_cons, List.append_assoc, List.findIdx?_append,
    hnone]
  simp only [List.singleton_append, List.findIdx?_cons, decide_true, if_true, List.length_reverse,
    Option.map_some, Option.none_or, List.length_append, List.length_cons, Nat.zero_add]
  rw [Option.some.injEq]
  omega

theorem lastIndex_concat {x : List α} {a : α} :
    lastIndex d (x ++ [a]) = some x.length ↔ a = d := by
  constructor
  · intro h
    by_contra ha
    rw [lastIndex, List.reverse_append, List.reverse_singleton, List.singleton_append,
      List.findIdx?_cons, decide_eq_false ha] at h
    obtain ⟨i, hi, heq⟩ := Option.map_eq_some_iff.1 h
    obtain ⟨j, hj, rfl⟩ := Option.map_eq_some_iff.1 hi
    have hlt := (List.findIdx?_eq_some_iff_getElem.1 hj).1
    rw [List.length_reverse] at hlt
    rw [List.length_append, List.length_singleton] at heq
    omega
  · rintro rfl
    exact lastIndex_append_cons x (by simp)

end CUtils.Delimiter
