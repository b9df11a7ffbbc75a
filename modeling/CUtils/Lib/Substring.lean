import Mathlib.Data.List.Infix

/-!
# Occurrences of a list in a list

`firstIndex pat l` is the index of the first occurrence of `pat` in `l`. Cutting `l` at the
occurrences that a scan from the left meets, each one looked for behind the one before, gives its
pieces. `Pieces` says so without naming a scan: a program that scans is compared with it by
induction on how the list is cut, and two programs that follow it agree.
-/

namespace Substring

variable {α : Type}

section First

variable [DecidableEq α]

/-- The index of the first occurrence. -/
def firstIndex (pat : List α) : List α → Option Nat
  | [] => if pat = [] then some 0 else none
  | a :: l => if pat <+: a :: l then some 0 else (firstIndex pat l).map (· + 1)

theorem firstIndex_nil (pat : List α) :
    firstIndex pat [] = if pat = [] then some 0 else none := rfl

theorem firstIndex_cons (pat : List α) (a : α) (l : List α) :
    firstIndex pat (a :: l) =
      if pat <+: a :: l then some 0 else (firstIndex pat l).map (· + 1) := rfl

/-- `pat` occurs behind `a`, and nowhere before. -/
def FirstAfter (pat a b : List α) : Prop := ∀ i < a.length, ¬ pat <+: (a ++ pat ++ b).drop i

theorem firstIndex_some {pat l : List α} {i : Nat} (h : firstIndex pat l = some i) :
    ∃ a b, l = a ++ pat ++ b ∧ a.length = i ∧ FirstAfter pat a b := by
  induction l generalizing i with
  | nil =>
      rw [firstIndex_nil] at h
      split at h
      · rename_i hpat
        exact ⟨[], [], by simp [hpat], Option.some.inj h, fun i hi => absurd hi (by simp)⟩
      · cases h
  | cons x l ih =>
      rw [firstIndex_cons] at h
      split at h
      · rename_i hpre
        obtain ⟨b, hb⟩ := hpre
        exact ⟨[], b, hb.symm, Option.some.inj h, fun i hi => absurd hi (by simp)⟩
      · rename_i hpre
        obtain ⟨j, hj, rfl⟩ := Option.map_eq_some_iff.1 h
        obtain ⟨a, b, hl, hlen, hfirst⟩ := ih hj
        refine ⟨x :: a, b, by rw [hl]; simp, by rw [List.length_cons, hlen], fun i hi => ?_⟩
        cases i with
        | zero =>
            rw [hl] at hpre
            simpa using hpre
        | succ i => exact hfirst i (by simpa using hi)

theorem firstIndex_none {pat l : List α} (h : firstIndex pat l = none) : ¬ pat <:+: l := by
  induction l with
  | nil =>
      rw [firstIndex_nil] at h
      split at h
      · cases h
      · rename_i hpat
        simpa using hpat
  | cons x l ih =>
      rw [firstIndex_cons] at h
      split at h
      · cases h
      · rename_i hpre
        rw [List.infix_cons_iff, not_or]
        exact ⟨hpre, ih (Option.map_eq_none_iff.1 h)⟩

theorem FirstAfter.firstIndex {pat a b : List α} (h : FirstAfter pat a b) :
    firstIndex pat (a ++ pat ++ b) = some a.length := by
  induction a with
  | nil =>
      rw [List.nil_append]
      cases hpat : pat ++ b with
      | nil =>
          rw [(List.append_eq_nil_iff.1 hpat).1]
          rfl
      | cons x l =>
          rw [firstIndex_cons, if_pos ⟨b, hpat⟩]
          rfl
  | cons x a ih =>
      have hrest : FirstAfter pat a b := fun i hi => h (i + 1) (by simpa using hi)
      have hhere := h 0 (by simp)
      simp only [List.cons_append, List.drop_zero] at hhere
      rw [List.cons_append, List.cons_append, firstIndex_cons, if_neg hhere, ih hrest]
      rfl

theorem firstIndex_of_not {pat l : List α} (h : ¬ pat <:+: l) : firstIndex pat l = none := by
  cases hi : firstIndex pat l with
  | none => rfl
  | some i =>
      obtain ⟨a, b, rfl, -, -⟩ := firstIndex_some hi
      exact absurd ⟨a, b, rfl⟩ h

end First

/-- In front of the first occurrence there is none. -/
theorem FirstAfter.not_infix {pat a b : List α} (hpat : pat ≠ []) (h : FirstAfter pat a b) :
    ¬ pat <:+: a := by
  rintro ⟨s, t, rfl⟩
  have hpos := List.length_pos_iff.2 hpat
  refine h s.length (by simp; omega) ?_
  simp only [List.append_assoc, List.drop_left]
  exact List.prefix_append _ _

/-! ## Occurrences at a place -/

/-- `pat` occurs in `l` at `i`. -/
def OccursAt (pat l : List α) (i : Nat) : Prop := i ≤ l.length ∧ pat <+: l.drop i

/-- `i` is the first place at or behind `pos` where `pat` occurs in `l`. -/
structure FirstFrom (pat l : List α) (pos i : Nat) : Prop where
  le : pos ≤ i
  occurs : OccursAt pat l i
  first : ∀ j, pos ≤ j → j < i → ¬ OccursAt pat l j

/-- An occurrence in the rest of a list is an occurrence in the list. -/
theorem occursAt_drop {pat l : List α} {pos : Nat} (hpos : pos ≤ l.length) (i : Nat) :
    OccursAt pat (l.drop pos) i ↔ OccursAt pat l (pos + i) := by
  rw [OccursAt, OccursAt, List.length_drop, List.drop_drop]
  constructor
  · rintro ⟨hi, hpre⟩
    exact ⟨by omega, hpre⟩
  · rintro ⟨hi, hpre⟩
    exact ⟨by omega, hpre⟩

theorem firstFrom_drop {pat l : List α} {pos : Nat} (hpos : pos ≤ l.length) (k i : Nat) :
    FirstFrom pat (l.drop pos) k i ↔ FirstFrom pat l (pos + k) (pos + i) := by
  constructor
  · intro h
    refine ⟨Nat.add_le_add_left h.le pos, (occursAt_drop hpos i).1 h.occurs, fun j hj hji => ?_⟩
    have hshift := h.first (j - pos) (by omega) (by omega)
    rwa [occursAt_drop hpos, show pos + (j - pos) = j by omega] at hshift
  · intro h
    refine ⟨Nat.le_of_add_le_add_left h.le, (occursAt_drop hpos i).2 h.occurs, fun j hj hji => ?_⟩
    rw [occursAt_drop hpos]
    exact h.first (pos + j) (by omega) (by omega)

theorem FirstFrom.unique {pat l : List α} {pos i j : Nat} (hi : FirstFrom pat l pos i)
    (hj : FirstFrom pat l pos j) : i = j := by
  rcases Nat.lt_trichotomy i j with hlt | heq | hgt
  · exact absurd hi.occurs (hj.first i hi.le hlt)
  · exact heq
  · exact absurd hj.occurs (hi.first j hj.le hgt)

theorem FirstFrom.of_firstIndex [DecidableEq α] {pat l : List α} {i : Nat} (h : firstIndex pat l = some i) :
    FirstFrom pat l 0 i := by
  obtain ⟨a, b, rfl, rfl, hfirst⟩ := firstIndex_some h
  refine ⟨Nat.zero_le _, ⟨by simp only [List.length_append]; omega, ?_⟩, fun j _ hj hocc => ?_⟩
  · rw [List.append_assoc, List.drop_left]
    exact List.prefix_append _ _
  · exact hfirst j hj hocc.2

theorem not_occursAt_of_firstIndex [DecidableEq α] {pat l : List α} (h : firstIndex pat l = none)
    (i : Nat) : ¬ OccursAt pat l i := by
  rintro ⟨-, hpre⟩
  exact firstIndex_none h (hpre.isInfix.trans (List.drop_suffix i l).isInfix)

/-! ## Pieces -/

/-- The pieces of a list between the occurrences of `sep` that a scan from the left meets. -/
inductive Pieces (sep : List α) : List α → List (List α) → Prop
  | last {l : List α} (h : ¬ sep <:+: l) : Pieces sep l [l]
  | cut {a b : List α} {parts : List (List α)} (h : FirstAfter sep a b) (hb : Pieces sep b parts) :
      Pieces sep (a ++ sep ++ b) (a :: parts)

theorem exists_pieces [DecidableEq α] {sep : List α} (hsep : sep ≠ []) (l : List α) :
    ∃ parts, Pieces sep l parts := by
  induction hn : l.length using Nat.strong_induction_on generalizing l with
  | _ n ih =>
      cases hi : firstIndex sep l with
      | none => exact ⟨[l], .last (firstIndex_none hi)⟩
      | some i =>
          obtain ⟨a, b, rfl, -, hfirst⟩ := firstIndex_some hi
          have hpos := List.length_pos_iff.2 hsep
          obtain ⟨parts, hparts⟩ := ih b.length (by simp at hn; omega) b rfl
          exact ⟨a :: parts, .cut hfirst hparts⟩

variable {sep l : List α} {parts : List (List α)}

theorem Pieces.ne_nil (h : Pieces sep l parts) : parts ≠ [] := by
  cases h with
  | last => simp
  | cut => simp

/-- Joined with the separator, the pieces give the list. -/
theorem Pieces.join (h : Pieces sep l parts) : sep.intercalate parts = l := by
  induction h with
  | last => simp
  | cut _ hb ih => rw [List.intercalate_cons_of_ne_nil hb.ne_nil, ih]

theorem Pieces.not_infix (hsep : sep ≠ []) (h : Pieces sep l parts) :
    ∀ part ∈ parts, ¬ sep <:+: part := by
  induction h with
  | last h => simpa using h
  | cut h _ ih =>
      intro part hpart
      rcases List.mem_cons.1 hpart with rfl | hpart
      · exact h.not_infix hsep
      · exact ih part hpart

/-- There are no more pieces than elements, and one. -/
theorem Pieces.length_le (hsep : sep ≠ []) (h : Pieces sep l parts) :
    parts.length ≤ l.length + 1 := by
  have hpos := List.length_pos_iff.2 hsep
  induction h with
  | last => simp
  | cut _ _ ih =>
      simp only [List.length_cons, List.length_append]
      omega

/-! ## Occurrences apart from each other -/

/-- Places, from left to right, where `sep` occurs in `l` without overlapping itself. -/
structure Apart (sep l : List α) (ps : List Nat) : Prop where
  apart : ps.Pairwise fun i j => i + sep.length ≤ j
  occurs : ∀ i ∈ ps, OccursAt sep l i

/-- The places where the pieces end. -/
theorem Pieces.exists_apart (h : Pieces sep l parts) :
    ∃ ps, Apart sep l ps ∧ ps.length + 1 = parts.length := by
  induction h with
  | last => exact ⟨[], ⟨.nil, by simp⟩, rfl⟩
  | @cut a b parts _ _ ih =>
      obtain ⟨ps, hps, hlen⟩ := ih
      have hbehind : (a ++ sep).length ≤ (a ++ sep ++ b).length := by simp
      refine ⟨a.length :: ps.map ((a ++ sep).length + ·), ⟨?_, ?_⟩, ?_⟩
      · refine List.pairwise_cons.2 ⟨fun j hj => ?_, List.pairwise_map.2 (hps.apart.imp fun hij => ?_)⟩
        · obtain ⟨i, -, rfl⟩ := List.mem_map.1 hj
          rw [List.length_append]
          omega
        · omega
      · intro i hi
        rcases List.mem_cons.1 hi with rfl | hi
        · refine ⟨by simp only [List.length_append]; omega, ?_⟩
          rw [List.append_assoc, List.drop_left]
          exact List.prefix_append sep b
        · obtain ⟨j, hj, rfl⟩ := List.mem_map.1 hi
          rw [← occursAt_drop hbehind, List.drop_left]
          exact hps.occurs j hj
      · rw [List.length_cons, List.length_map, hlen, List.length_cons]

/-- Scanning from the left meets as many occurrences as there can be apart from each other: whatever
the first of them is, the scan has met one that is not behind it. -/
theorem Pieces.apart_le (h : Pieces sep l parts) {ps : List Nat} (hps : Apart sep l ps) :
    ps.length + 1 ≤ parts.length := by
  induction h generalizing ps with
  | last h =>
      cases ps with
      | nil => exact Nat.le_refl 1
      | cons i ps =>
          have hocc := (hps.occurs i (by simp)).2
          exact absurd (hocc.isInfix.trans (List.drop_suffix _ _).isInfix) h
  | @cut a b parts hfirst _ ih =>
      rw [List.length_cons]
      cases ps with
      | nil => simp
      | cons i ps =>
          have hi : a.length ≤ i := by
            by_contra hlt
            exact hfirst i (Nat.lt_of_not_le hlt) (hps.occurs i (by simp)).2
          obtain ⟨hnext, hrest⟩ := List.pairwise_cons.1 hps.apart
          have hbehind : (a ++ sep).length ≤ (a ++ sep ++ b).length := by simp
          have hle : ∀ j ∈ ps, (a ++ sep).length ≤ j := by
            intro j hj
            have := hnext j hj
            rw [List.length_append]
            omega
          have hshift : Apart sep b (ps.map (· - (a ++ sep).length)) := by
            refine ⟨List.pairwise_map.2 ?_, fun j hj => ?_⟩
            · refine hrest.imp_of_mem fun {i j} hi hj hij => ?_
              have := hle i hi
              have := hle j hj
              omega
            · obtain ⟨k, hk, rfl⟩ := List.mem_map.1 hj
              have hocc := hps.occurs k (List.mem_cons_of_mem i hk)
              rw [← Nat.add_sub_of_le (hle k hk), ← occursAt_drop hbehind, List.drop_left] at hocc
              exact hocc
          have hlen := ih hshift
          rw [List.length_map] at hlen
          exact Nat.succ_le_succ hlen

end Substring
