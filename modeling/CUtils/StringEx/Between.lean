import CUtils.StringEx.Model

/-!
# Strings between two delimiters

`GetSubStrBetween` cuts its string at the right delimiter it has found and goes on there, so that a
right delimiter may be the next left one. `Walk` says which pairs of positions such a scan of the
whole string meets, and the loop is compared with it by induction on its own recursion: what is left
of the string is the string from the last right delimiter on.
-/

namespace CUtils.StringEx

open Substring

variable {str left right : Str} {pos : Nat}

theorem find_firstFrom {sub : Str} {i : Nat} (h : find str sub pos = some i) :
    FirstFrom sub str pos i := by
  rw [find] at h
  split at h
  · rename_i hpos
    obtain ⟨j, hj, rfl⟩ := Option.map_eq_some_iff.1 h
    exact (firstFrom_drop hpos 0 j).1 (.of_firstIndex hj)
  · cases h

theorem not_occursAt_of_find {sub : Str} (h : find str sub pos = none) (i : Nat) (hi : pos ≤ i) :
    ¬ OccursAt sub str i := by
  intro hocc
  have hpos := Nat.le_trans hi hocc.1
  rw [find, if_pos hpos, Option.map_eq_none_iff] at h
  refine not_occursAt_of_firstIndex h (i - pos) ((occursAt_drop hpos _).2 ?_)
  rwa [show pos + (i - pos) = i by omega]

/-! ## Pairs of delimiters -/

/-- The first left delimiter at or behind `pos`, and the first right delimiter behind that. -/
structure Pair (str left right : Str) (pos l r : Nat) : Prop where
  left_first : FirstFrom left str pos l
  right_first : FirstFrom right str (l + left.length) r

/-- The pairs that a scan from `pos` on meets, each looked for from the right delimiter of the one
before, until there is none. -/
inductive Walk (str left right : Str) : Nat → List (Nat × Nat) → Prop
  | stop {pos : Nat} (h : ∀ l r, ¬ Pair str left right pos l r) : Walk str left right pos []
  | next {pos l r : Nat} {pairs : List (Nat × Nat)} (h : Pair str left right pos l r)
      (hrest : Walk str left right r pairs) : Walk str left right pos ((l, r) :: pairs)

/-- The text of a pair: what stands between its delimiters. -/
def textBetween (str left : Str) (p : Nat × Nat) : Str :=
  substr str (p.1 + left.length) (p.2 - (p.1 + left.length))

theorem Pair.lt (hleft : left ≠ []) {l r : Nat} (h : Pair str left right pos l r) :
    pos ≤ l ∧ l < r ∧ r ≤ str.length := by
  have hpos := List.length_pos_iff.2 hleft
  have hl := h.left_first.le
  have hr := h.right_first.le
  have hlen := h.right_first.occurs.1
  omega

/-- In the rest of the string a pair stands earlier. -/
theorem pair_drop (hpos : pos ≤ str.length) (l r : Nat) :
    Pair (str.drop pos) left right 0 l r ↔ Pair str left right pos (pos + l) (pos + r) := by
  constructor
  · rintro ⟨hl, hr⟩
    refine ⟨(firstFrom_drop hpos 0 l).1 hl, ?_⟩
    rw [Nat.add_assoc]
    exact (firstFrom_drop hpos _ r).1 hr
  · rintro ⟨hl, hr⟩
    refine ⟨(firstFrom_drop hpos 0 l).2 hl, (firstFrom_drop hpos _ r).2 ?_⟩
    rw [← Nat.add_assoc]
    exact hr

theorem textBetween_drop (l r : Nat) :
    textBetween (str.drop pos) left (l, r) = textBetween str left (pos + l, pos + r) := by
  simp only [textBetween, substr, List.drop_drop]
  rw [show pos + r - (pos + l + left.length) = r - (l + left.length) by omega, Nat.add_assoc]

/-! ## The loop -/

theorem getFirstSubStrBetween_none (hleft : left ≠ []) (hright : right ≠ [])
    (h : getFirstSubStrBetween str left right = none) (l r : Nat) :
    ¬ Pair str left right 0 l r := by
  rw [getFirstSubStrBetween, if_neg (not_or.2 ⟨hleft, hright⟩)] at h
  rintro ⟨hl, hr⟩
  split at h
  · rename_i hnone
    exact not_occursAt_of_find hnone l (Nat.zero_le l) hl.occurs
  · rename_i leftPos hsome
    obtain rfl := hl.unique (find_firstFrom hsome)
    split at h
    · rename_i hnone
      exact not_occursAt_of_find hnone r hr.le hr.occurs
    · cases h

theorem getFirstSubStrBetween_some {subString : Str} {r : Nat}
    (h : getFirstSubStrBetween str left right = some (r, subString)) :
    ∃ l, Pair str left right 0 l r ∧ subString = textBetween str left (l, r) := by
  rw [getFirstSubStrBetween] at h
  split at h
  · cases h
  · split at h
    · cases h
    · rename_i leftPos hleft
      split at h
      · cases h
      · rename_i rightPos hright
        obtain ⟨rfl, rfl⟩ := Prod.mk.inj (Option.some.inj h)
        exact ⟨leftPos, ⟨find_firstFrom hleft, find_firstFrom hright⟩, rfl⟩

/-- **The loop meets the pairs of the walk**, from wherever it has got to. -/
theorem subStrLoop_walk (hleft : left ≠ []) (hright : right ≠ []) (hpos : pos ≤ str.length)
    (sub : List Str) :
    ∃ pairs, Walk str left right pos pairs ∧
      subStrLoop left right (str.drop pos) sub = sub ++ pairs.map (textBetween str left) := by
  induction hn : str.length - pos using Nat.strong_induction_on generalizing pos sub with
  | _ n ih =>
      rw [subStrLoop]
      split
      · rename_i hnone
        refine ⟨[], .stop fun l r hpair => ?_, by simp⟩
        have hl := (hpair.lt hleft).1
        have hr := (hpair.lt hleft).2.1
        refine getFirstSubStrBetween_none hleft hright hnone (l - pos) (r - pos) ?_
        rwa [pair_drop hpos, show pos + (l - pos) = l by omega,
          show pos + (r - pos) = r by omega]
      · rename_i r subString hsome
        obtain ⟨l, hpair, rfl⟩ := getFirstSubStrBetween_some hsome
        have hnext := (pair_drop hpos l r).1 hpair
        have hlt := hnext.lt hleft
        obtain ⟨pairs, hwalk, hloop⟩ := ih (str.length - (pos + r)) (by omega) hlt.2.2
          (sub ++ [textBetween (str.drop pos) left (l, r)]) rfl
        refine ⟨(pos + l, pos + r) :: pairs, .next hnext hwalk, ?_⟩
        rw [List.drop_drop, hloop, textBetween_drop, List.map_cons, List.append_assoc]
        rfl

theorem subStrLoop_empty (h : left = [] ∨ right = []) (strTmp : Str) (sub : List Str) :
    subStrLoop left right strTmp sub = sub := by
  have hnone : getFirstSubStrBetween strTmp left right = none := by
    rw [getFirstSubStrBetween, if_pos h]
  rw [subStrLoop]
  split
  · rfl
  · rename_i hsome
    rw [hnone] at hsome
    cases hsome

/-- The positions of a walk go up; a right delimiter may be where the next left one is. -/
theorem Walk.ascending (hleft : left ≠ []) {pairs : List (Nat × Nat)}
    (h : Walk str left right pos pairs) :
    (∀ p ∈ pairs, pos ≤ p.1 ∧ p.1 < p.2 ∧ p.2 ≤ str.length) ∧
      pairs.Pairwise fun p q => p.2 ≤ q.1 := by
  induction h with
  | stop => simp
  | next hpair _ ih =>
      have hlt := hpair.lt hleft
      obtain ⟨hin, hpairwise⟩ := ih
      refine ⟨fun p hp => ?_, List.pairwise_cons.2 ⟨fun q hq => (hin q hq).1, hpairwise⟩⟩
      rcases List.mem_cons.1 hp with rfl | hp
      · exact hlt
      · have hbound := hin p hp
        omega

/-- **`GetSubStrBetween` returns, and what it appends are the texts of the pairs of the walk from
the start of the string**: each left delimiter is the first one from the right delimiter before it
on, each right delimiter the first one behind its left one, and it stops when there is no further
pair. With an empty delimiter nothing is appended. -/
theorem getSubStrBetween_walk (str left right : Str) (sub : List Str) :
    (left = [] ∨ right = [] → getSubStrBetween str left right sub = sub) ∧
      (left ≠ [] → right ≠ [] → ∃ pairs, Walk str left right 0 pairs ∧
        (∀ p ∈ pairs, p.1 < p.2 ∧ p.2 ≤ str.length) ∧ pairs.Pairwise (fun p q => p.2 ≤ q.1) ∧
        getSubStrBetween str left right sub = sub ++ pairs.map (textBetween str left)) := by
  refine ⟨fun h => subStrLoop_empty h str sub, fun hleft hright => ?_⟩
  obtain ⟨pairs, hwalk, hloop⟩ :=
    subStrLoop_walk hleft hright (Nat.zero_le str.length) sub
  obtain ⟨hin, hpairwise⟩ := hwalk.ascending hleft
  exact ⟨pairs, hwalk, fun p hp => (hin p hp).2, hpairwise, hloop⟩

/-- One delimiter on both sides: what ends one text starts the next. -/
theorem getSubStrBetween_walk_shared :
    getSubStrBetween [1, 2, 1, 3, 1] [1] [1] [] = [[2], [3]] ∧
      ∃ pairs, Walk [1, 2, 1, 3, 1] [1] [1] 0 pairs ∧
        pairs.map (textBetween [1, 2, 1, 3, 1] [1]) = [[2], [3]] := by
  have hrun : getSubStrBetween [1, 2, 1, 3, 1] [1] [1] [] = [[2], [3]] := by decide +kernel
  obtain ⟨-, hwalk⟩ := getSubStrBetween_walk [1, 2, 1, 3, 1] [1] [1] []
  obtain ⟨pairs, hpairs, -, -, heq⟩ := hwalk (by decide) (by decide)
  exact ⟨hrun, pairs, hpairs, by rw [← hrun, heq, List.nil_append]⟩

end CUtils.StringEx
