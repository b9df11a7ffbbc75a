import CUtils.Timer.Table
import Mathlib.Data.Set.Card

/-!
# Timer ids

The ids run through everything but `0`, `UINT32_MAX` and `TIMER_ERR_DEAL_FAILED`, and begin again
at the end. As long as one of these `2 ^ 32 - 3` is free, the search of `Register` comes to a free
one.
-/

namespace CUtils.Timers

open Timer

structure ValidId (timerId : Id) : Prop where
  pos : timerId ≠ 0
  max : timerId ≠ uint32Max
  failed : timerId ≠ dealFailed

theorem ValidId.toNat {i : Id} (h : ValidId i) :
    0 < i.toNat ∧ i.toNat < 2 ^ 32 - 1 ∧ i.toNat ≠ 65547 := by
  have hpos := h.pos
  have hmax := h.max
  have hfailed := h.failed
  simp only [ne_eq, ← BitVec.toNat_inj] at hpos hmax hfailed
  have hlt := i.isLt
  have h0 : (0 : Id).toNat = 0 := rfl
  have h1 : uint32Max.toNat = 2 ^ 32 - 1 := rfl
  have h2 : dealFailed.toNat = 65547 := rfl
  omega

theorem toNat_getValidId (i : Id) :
    (getValidId i).toNat =
      if i.toNat = 65547 then 65548 else if i.toNat = 2 ^ 32 - 1 then 1 else i.toNat := by
  have hfailed : i = dealFailed ↔ i.toNat = 65547 := by rw [← BitVec.toNat_inj]; rfl
  have hmax : i = uint32Max ↔ i.toNat = 2 ^ 32 - 1 := by rw [← BitVec.toNat_inj]; rfl
  unfold getValidId
  by_cases h : i.toNat = 65547
  · rw [if_pos h, if_pos (hfailed.2 h), hfailed.2 h]
    rfl
  · rw [if_neg h, if_neg fun h' => h (hfailed.1 h')]
    by_cases h' : i.toNat = 2 ^ 32 - 1
    · rw [if_pos h', if_pos (hmax.2 h')]
      rfl
    · rw [if_neg h', if_neg fun h'' => h' (hmax.1 h'')]

theorem validId_of_toNat {i : Id} (h : 0 < i.toNat ∧ i.toNat < 2 ^ 32 - 1 ∧ i.toNat ≠ 65547) :
    ValidId i where
  pos := by rintro rfl; exact absurd h.1 (by decide)
  max := by rintro rfl; exact absurd h.2.1 (by decide)
  failed := by rintro rfl; exact absurd h.2.2 (by decide)

theorem validId_getValidId {i : Id} (h : i ≠ 0) : ValidId (getValidId i) := by
  have hpos : i.toNat ≠ 0 := fun h0 => h (BitVec.eq_of_toNat_eq h0)
  have hlt := i.isLt
  refine validId_of_toNat ?_
  rw [toNat_getValidId]
  split
  · omega
  · split <;> omega

theorem ValidId.toNat_succ {i : Id} (h : ValidId i) : (i + 1).toNat = i.toNat + 1 := by
  have := h.toNat
  rw [BitVec.toNat_add]
  show (i.toNat + 1) % 2 ^ 32 = _
  omega

theorem ValidId.succ_ne_zero {i : Id} (h : ValidId i) : i + 1 ≠ 0 := by
  intro h0
  have := congrArg BitVec.toNat h0
  rw [h.toNat_succ] at this
  exact absurd this (by simp)

/-- How far it is from `i` up to `f`, around the end if need be. -/
def idDistance (f i : Id) : Nat :=
  if i.toNat ≤ f.toNat then f.toNat - i.toNat else 2 ^ 32 - i.toNat + f.toNat

theorem idDistance_lt {f i : Id} : idDistance f i < 2 ^ 32 := by
  have := f.isLt
  unfold idDistance
  split <;> omega

/-- The next id is nearer to a valid one that has not been reached. -/
theorem idDistance_next {f i : Id} (hf : ValidId f) (hi : ValidId i) (hne : i ≠ f) :
    idDistance f (getValidId (i + 1)) < idDistance f i := by
  have hf' := hf.toNat
  have hi' := hi.toNat
  have hne' : i.toNat ≠ f.toNat := fun h => hne (BitVec.eq_of_toNat_eq h)
  unfold idDistance
  rw [toNat_getValidId, hi.toNat_succ]
  by_cases h1 : i.toNat + 1 = 65547
  · rw [if_pos h1]
    split <;> split <;> omega
  · rw [if_neg h1]
    by_cases h2 : i.toNat + 1 = 2 ^ 32 - 1
    · rw [if_pos h2]
      split <;> split <;> omega
    · rw [if_neg h2]
      split <;> split <;> omega

/-! ## The search -/

namespace Timer

theorem searchId_spec {t : Timer} {n : Nat} {i j : Id} (hi : ValidId i)
    (h : t.searchId n i = some j) : ValidId j ∧ t.timerToEntries j = none := by
  induction n generalizing i with
  | zero => exact absurd h (by simp [searchId])
  | succ n ih =>
      rw [searchId] at h
      by_cases hlive : (t.timerToEntries i).isSome = true
      · rw [if_pos hlive] at h
        exact ih (validId_getValidId hi.succ_ne_zero) h
      · rw [if_neg hlive] at h
        obtain rfl := Option.some.inj h
        exact ⟨hi, by simpa using hlive⟩

theorem searchId_isSome {t : Timer} {f : Id} (hf : ValidId f) (hfree : t.timerToEntries f = none)
    {n : Nat} {i : Id} (hi : ValidId i) (hn : idDistance f i < n) : ∃ j, t.searchId n i = some j := by
  induction n generalizing i with
  | zero => exact absurd hn (by simp)
  | succ n ih =>
      rw [searchId]
      by_cases hlive : (t.timerToEntries i).isSome = true
      · have hne : i ≠ f := by
          rintro rfl
          rw [hfree] at hlive
          exact absurd hlive (by simp)
        have hcloser := idDistance_next hf hi hne
        rw [if_pos hlive]
        exact ih (validId_getValidId hi.succ_ne_zero) (by omega)
      · exact ⟨i, by rw [if_neg hlive]⟩

/-- What is found first is found. -/
theorem searchId_of_free {t : Timer} {i : Id} (hfree : t.timerToEntries i = none) (n : Nat) :
    t.searchId (n + 1) i = some i := by
  rw [searchId, hfree]
  rfl

/-- How many timers are live. -/
noncomputable def live (t : Timer) : Nat := {i : Id | (t.timerToEntries i).isSome = true}.ncard

theorem exists_free {t : Timer} (h : t.live < 2 ^ 32 - 3) :
    ∃ f, ValidId f ∧ t.timerToEntries f = none := by
  by_contra hnone
  have hall : ∀ f, ValidId f → (t.timerToEntries f).isSome = true := by
    intro f hf
    by_contra hfree
    exact hnone ⟨f, hf, by simpa using hfree⟩
  have hcover : (Set.univ : Set Id) ⊆
      {i | (t.timerToEntries i).isSome = true} ∪ {0, uint32Max, dealFailed} := by
    intro i _
    by_cases hi : ValidId i
    · exact Or.inl (hall i hi)
    · refine Or.inr ?_
      by_contra hnot
      simp only [Set.mem_insert_iff, Set.mem_singleton_iff, not_or] at hnot
      exact hi ⟨hnot.1, hnot.2.1, hnot.2.2⟩
  have hfinite : Finite Id := Finite.of_equiv _ (BitVec.equivFin (m := 32)).symm.toEquiv
  have hcard : (Set.univ : Set Id).ncard = 2 ^ 32 := by
    rw [Set.ncard_univ, Nat.card_congr (BitVec.equivFin).toEquiv, Nat.card_fin]
  have hle := Set.ncard_le_ncard hcover (Set.toFinite _)
  have hunion := Set.ncard_union_le {i : Id | (t.timerToEntries i).isSome = true}
    {0, uint32Max, dealFailed}
  have hthree : ({0, uint32Max, dealFailed} : Set Id).ncard ≤ 3 := by
    have h1 := Set.ncard_insert_le (0 : Id) {uint32Max, dealFailed}
    have h2 := Set.ncard_insert_le uint32Max {dealFailed}
    rw [Set.ncard_singleton] at h2
    omega
  unfold live at h
  omega

/-- **The search of `Register` ends**, with an id that is valid and free. -/
theorem nextId_spec {t : Timer} (hcounter : t.timerId ≠ 0) (h : t.live < 2 ^ 32 - 3) :
    ∃ i, t.nextId = some i ∧ ValidId i ∧ t.timerToEntries i = none := by
  obtain ⟨f, hf, hfree⟩ := exists_free h
  have hstart := validId_getValidId hcounter
  obtain ⟨i, hi⟩ := searchId_isSome hf hfree hstart idDistance_lt
  exact ⟨i, hi, searchId_spec hstart hi⟩

end Timer

end CUtils.Timers
