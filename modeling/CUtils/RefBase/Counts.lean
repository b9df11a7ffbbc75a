import Mathlib.Data.Finset.Filter
import CUtils.Lib.StateRun
import CUtils.RefBase.Effects

/-!
# The documented counts

`Tally s n f used`: the counters of the object are those of `n` strong references and of
`WeakRefCounter`s with `f w` `wptr`s each, and the object is at the stage of its life that goes with
them. Each function of `RefCounter`, `RefBase` and `WeakRefCounter` takes a tally to a tally; an
operation on a smart pointer is one or two of them, with the change to the pointers in between
(`RefBase.Bookkeeping`).
-/

namespace CUtils.RefBases

open StateRun

/-- The life of the object, with `n` strong references and `m` `WeakRefCounter`s. -/
inductive Life (s : State) (n m : Nat) (used : Bool) : Prop
  | alive (hd : s.destroyed = 0) (hf : s.freed = 0) (hr : s.refs.refCount = m + 1)
      (hc : s.refs.callback = true) (hk : ∀ w, (s.wrc w).cookie = true)
      (hn : s.refs.extended = false → used = true → 0 < n)
  /-- The last strong reference has gone; there are `wptr`s. -/
  | dead (hd : s.destroyed = 1) (hf : s.freed = 0) (hr : s.refs.refCount = m + 1)
      (hc : s.refs.callback = false) (hx : s.refs.extended = false) (hu : used = true) (hn : n = 0)
      (hm : 0 < m)
  | gone (hd : s.destroyed = 1) (hf : s.freed = 1) (hn : n = 0) (hm : m = 0)

structure Tally (s : State) (n : Nat) (f : Nat → Nat) (used : Bool) : Prop where
  strong : s.refs.strong = if used then (n : Int) else initialPrimaryValue
  unused : used = false → n = 0
  weak : s.refs.weak = n + s.wrcs.card
  wrc : ∀ w ∈ s.wrcs, (s.wrc w).weak = f w ∧ 0 < f w
  none : ∀ w, w ∉ s.wrcs → f w = 0
  fresh : ∀ w ∈ s.wrcs, w < s.next
  early : s.early = 0
  life : Life s n s.wrcs.card used

variable {s : State} {n : Nat} {f : Nat → Nat} {used : Bool}

/-! ## Strong references -/

theorem int32_zero : int32 0 = 0 := int32_eq (by omega) (by omega)

/-- `IncStrongRef`. -/
theorem incStrongRef_eq (hlo : 0 ≤ s.refs.strong) (hhi : s.refs.strong ≤ initialPrimaryValue) :
    ∃ k, s.incStrongRef = { s with
      refs := { s.refs with
        strong := if s.refs.strong = initialPrimaryValue then 1 else s.refs.strong + 1
        weak := int32 (s.refs.weak + 1) }
      fired := k } := by
  have hadd : int32 (s.refs.strong + 1) = s.refs.strong + 1 := by
    unfold initialPrimaryValue at hhi
    exact int32_eq (by omega) (by omega)
  unfold State.incStrongRef State.incStrongRefCount State.incWeakRefCount
  by_cases hinit : s.refs.strong = initialPrimaryValue
  · have hone : int32 (int32 (initialPrimaryValue + 1) - initialPrimaryValue) = 1 := by decide
    rw [hinit] at hlo
    simp only [State.setWeak, State.setStrong, ge_iff_le, hinit, if_pos hlo, if_true,
      State.onFirstStrongRef, hone]
    exact ⟨_, rfl⟩
  · simp only [State.setWeak, State.setStrong, ge_iff_le, if_pos hlo, if_neg hinit, hadd]
    exact ⟨_, rfl⟩

theorem Tally.strong_bounds (h : Tally s n f used) (hn : n < 2 ^ 28) :
    0 ≤ s.refs.strong ∧ s.refs.strong ≤ initialPrimaryValue := by
  rw [h.strong]
  unfold initialPrimaryValue
  split <;> omega

theorem Tally.strong_eq_initial (h : Tally s n f used) (hn : n < 2 ^ 28) :
    s.refs.strong = initialPrimaryValue ↔ used = false := by
  rw [h.strong]
  unfold initialPrimaryValue
  cases used with
  | false => simp
  | true =>
      simp
      omega

theorem Tally.incStrongRef (h : Tally s n f used) (halive : s.destroyed = 0) (hn : n + 1 < 2 ^ 28)
    (hm : n + s.wrcs.card + 1 < 2 ^ 31) :
    Tally s.incStrongRef (n + 1) f true ∧ Frame s s.incStrongRef ∧ s.incStrongRef.destroyed = 0 := by
  obtain ⟨hlo, hhi⟩ := h.strong_bounds (by omega)
  obtain ⟨k, hk⟩ := incStrongRef_eq hlo hhi
  have hweak : int32 (s.refs.weak + 1) = s.refs.weak + 1 := by
    rw [h.weak]
    exact int32_eq (by omega) (by omega)
  rw [hk, hweak]
  refine ⟨⟨?_, nofun, ?_, h.wrc, h.none, h.fresh, h.early, ?_⟩,
    ⟨rfl, rfl, rfl, rfl, rfl, rfl, rfl⟩, halive⟩
  · have hiff := h.strong_eq_initial (by omega)
    cases used with
    | false =>
        have hzero := h.unused rfl
        simp [hiff.2 rfl, hzero]
    | true =>
        have hstrong := h.strong
        simp only [if_true] at hstrong ⊢
        rw [if_neg fun heq => absurd (hiff.1 heq) nofun, hstrong]
        simp
  · show s.refs.weak + 1 = _
    rw [h.weak]
    push_cast
    omega
  · cases h.life with
    | alive hd hf hr hc hk hn => exact .alive hd hf hr hc hk fun _ _ => Nat.succ_pos n
    | dead hd => omega
    | gone hd => omega

/-- `DecRefCount`, when the last reference does not go before the object. -/
theorem decRefCount_eq {k : Nat} (hk : s.refs.refCount = k + 1) (hlt : k < 2 ^ 31)
    (hlate : k = 0 → s.destroyed ≠ 0) :
    s.decRefCount = { s with
      refs := { s.refs with refCount := k }
      freed := if k = 0 then s.freed + 1 else s.freed } := by
  have hsub : int32 (s.refs.refCount - 1) = k := by
    rw [hk, Int.add_sub_cancel]
    exact int32_eq (by omega) (by omega)
  have hone : s.refs.refCount = 1 ↔ k = 0 := by omega
  have hnot : ¬ (k = 0 ∧ s.destroyed = 0) := fun hall => hlate hall.1 hall.2
  unfold State.decRefCount
  rw [if_pos (by omega)]
  simp only [hsub, hone, if_neg hnot]

/-- `DecWeakRefCount`, when there are more weak references. -/
theorem decWeakRefCount_more {k : Nat} (hk : s.refs.weak = k + 2) (hlt : k + 1 < 2 ^ 31) :
    s.decWeakRefCount = { s with refs := { s.refs with weak := (k + 1 : Nat) } } := by
  have hsub : int32 (s.refs.weak - 1) = (k + 1 : Nat) := by
    rw [int32_eq (by omega) (by omega)]
    omega
  have hpos : s.refs.weak > 0 := by omega
  have hne : s.refs.weak ≠ 1 := by omega
  unfold State.decWeakRefCount
  simp only [State.setWeak, if_pos hpos, if_pos hne, hsub]

/-- `DecWeakRefCount`, when it is the last: the object goes, or the base reference. -/
theorem decWeakRefCount_last (hk : s.refs.weak = 1) :
    s.decWeakRefCount =
      if s.refs.extended = true ∨ s.refs.strong = initialPrimaryValue then
        State.callback { s with refs := { s.refs with weak := 0 } }
      else State.decRefCount { s with refs := { s.refs with weak := 0 } } := by
  unfold State.decWeakRefCount
  simp only [State.setWeak, hk]
  rw [if_pos (show (1 : Int) > 0 by omega), if_neg (by simp)]
  simp only [Int.sub_self, int32_zero]
  cases s.refs.extended with
  | true => simp
  | false => simp

/-- The destructor that releases the base reference. -/
theorem callback_release {k : Nat} (hc : s.refs.callback = true)
    (hbase : (s.refs.extended = true ∧ s.refs.weak = 0) ∨ s.refs.strong = initialPrimaryValue)
    (hk : s.refs.refCount = k + 1) (hlt : k < 2 ^ 31) :
    s.callback = { s with
      refs := { s.refs with callback := false, refCount := k }
      destroyed := s.destroyed + 1
      freed := if k = 0 then s.freed + 1 else s.freed } := by
  unfold State.callback State.destructor
  rw [if_pos hc]
  simp only [if_pos hbase]
  exact decRefCount_eq hk hlt fun _ => Nat.succ_ne_zero _

theorem callback_keep (hc : s.refs.callback = true)
    (hbase : ¬ ((s.refs.extended = true ∧ s.refs.weak = 0) ∨ s.refs.strong = initialPrimaryValue)) :
    s.callback =
      { s with refs := { s.refs with callback := false }, destroyed := s.destroyed + 1 } := by
  unfold State.callback State.destructor
  rw [if_pos hc]
  simp only [if_neg hbase]

/-- `DecStrongRefCount`. -/
theorem decStrongRefCount_eq (hn : n + 1 < 2 ^ 28) (hs : s.refs.strong = (n : Int) + 1) :
    s.decStrongRefCount = ((n : Int) + 1, { s with refs := { s.refs with strong := n } }) := by
  have hne : s.refs.strong ≠ initialPrimaryValue := by
    rw [hs]
    unfold initialPrimaryValue
    omega
  have hsub : int32 (s.refs.strong - 1) = n := by
    rw [hs, Int.add_sub_cancel]
    exact int32_eq (by omega) (by omega)
  unfold State.decStrongRefCount
  simp only [State.setStrong, if_neg hne, hsub]
  rw [if_pos (by omega), hs]

/-- The object is destroyed after the strong count has gone to zero, before the weak count is
touched. -/
theorem decStrongRef_eq (hn : n + 1 < 2 ^ 28) (hs : s.refs.strong = (n : Int) + 1) :
    s.decStrongRef = State.decWeakRefCount
      (if n = 0 ∧ s.refs.extended = false then
        State.callback { s with refs := { s.refs with strong := n } }
      else { s with refs := { s.refs with strong := n } }) := by
  have hone : (n : Int) + 1 = 1 ↔ n = 0 := by omega
  unfold State.decStrongRef
  rw [decStrongRefCount_eq hn hs]
  simp [hone]

section Release

variable {m : Nat} (hn : n + 1 < 2 ^ 28) (hs : s.refs.strong = (n : Int) + 1)
  (hw : s.refs.weak = n + 1 + m) (hlt : n + 1 + m < 2 ^ 31)

include hn hs hw hlt

theorem decStrongRef_more (hmore : 0 < n ∨ s.refs.extended = true ∧ 0 < m) :
    s.decStrongRef = { s with refs := { s.refs with strong := n, weak := (n + m : Nat) } } := by
  have hkeep : ¬ (n = 0 ∧ s.refs.extended = false) := by
    rintro ⟨hzero, hext⟩
    rcases hmore with hpos | ⟨htrue, -⟩
    · omega
    · rw [hext] at htrue
      cases htrue
  have hpos : 0 < n + m := by omega
  rw [decStrongRef_eq hn hs, if_neg hkeep]
  refine (decWeakRefCount_more (k := n + m - 1) ?_ (by omega)).trans ?_
  · show s.refs.weak = _
    omega
  · rw [Nat.sub_add_cancel hpos]

theorem decStrongRef_dead (hzero : n = 0) (hext : s.refs.extended = false) (hm : 0 < m)
    (hc : s.refs.callback = true) :
    s.decStrongRef = { s with
      refs := { s.refs with strong := n, weak := m, callback := false }
      destroyed := s.destroyed + 1 } := by
  have hne : (n : Int) ≠ initialPrimaryValue := by
    unfold initialPrimaryValue
    omega
  rw [decStrongRef_eq hn hs, if_pos ⟨hzero, hext⟩]
  refine (congrArg State.decWeakRefCount (callback_keep ?_ ?_)).trans ?_
  · exact hc
  · simp [hext, hne]
  · refine (decWeakRefCount_more (k := m - 1) ?_ (by omega)).trans ?_
    · show s.refs.weak = _
      omega
    · rw [Nat.sub_add_cancel hm]

omit hlt in
theorem decStrongRef_gone (hzero : n = 0) (hm : m = 0) (hc : s.refs.callback = true)
    (hr : s.refs.refCount = 1) :
    s.decStrongRef = { s with
      refs := { s.refs with strong := n, weak := 0, callback := false, refCount := 0 }
      destroyed := s.destroyed + 1
      freed := s.freed + 1 } := by
  have hne : (n : Int) ≠ initialPrimaryValue := by
    unfold initialPrimaryValue
    omega
  rw [decStrongRef_eq hn hs]
  cases hext : s.refs.extended with
  | true =>
      rw [if_neg (by simp)]
      refine (decWeakRefCount_last ?_).trans ?_
      · show s.refs.weak = 1
        omega
      · rw [if_pos (Or.inl hext)]
        exact callback_release (k := 0) hc (Or.inl ⟨hext, rfl⟩) hr (by omega)
  | false =>
      rw [if_pos ⟨hzero, rfl⟩]
      refine (congrArg State.decWeakRefCount (callback_keep ?_ ?_)).trans ?_
      · exact hc
      · simp [hext, hne]
      · refine (decWeakRefCount_last ?_).trans ?_
        · show s.refs.weak = 1
          omega
        · rw [if_neg (by simp [hext, hne])]
          exact decRefCount_eq (k := 0) hr (by omega) fun _ => Nat.succ_ne_zero _

end Release

/-- When a strong reference is given up, the object stays with the others, is destroyed with the
last one, or with the last of all if its lifetime is extended. -/
theorem Tally.decStrongRef (h : Tally s (n + 1) f used) (hn : n + 1 < 2 ^ 28)
    (hlt : n + 1 + s.wrcs.card < 2 ^ 31) :
    Tally s.decStrongRef n f used ∧ s.decStrongRef.destroyed =
      if n = 0 ∧ (s.refs.extended = true → s.wrcs.card = 0) then 1 else 0 := by
  obtain rfl : used = true := by
    cases used with
    | true => rfl
    | false => exact absurd (h.unused rfl) (Nat.succ_ne_zero n)
  have hs : s.refs.strong = (n : Int) + 1 := by
    rw [h.strong]
    simp
  have hw : s.refs.weak = n + 1 + s.wrcs.card := by
    rw [h.weak]
    push_cast
    rfl
  cases h.life with
  | dead _ _ _ _ _ _ hzero => omega
  | gone _ _ hzero => omega
  | alive hd hf hr hc hk _ =>
      by_cases hmore : 0 < n ∨ s.refs.extended = true ∧ 0 < s.wrcs.card
      · rw [decStrongRef_more hn hs hw hlt hmore]
        refine ⟨⟨by simp, nofun, by simp, h.wrc, h.none, h.fresh, h.early,
          .alive hd hf hr hc hk fun hext _ => ?_⟩, ?_⟩
        · rcases hmore with hpos | ⟨hext', -⟩
          · exact hpos
          · rw [hext'] at hext
            cases hext
        · rw [if_neg]
          · exact hd
          · rintro ⟨hzero, hall⟩
            rcases hmore with hpos | ⟨hext, hpos⟩
            · omega
            · have := hall hext
              omega
      · have hzero : n = 0 := by omega
        by_cases hm : s.wrcs.card = 0
        · rw [hm] at hw hr hlt
          rw [decStrongRef_gone hn hs hw hzero rfl hc (by simpa using hr),
            if_pos ⟨hzero, fun _ => hm⟩]
          exact ⟨⟨by simp, nofun, by simp [hzero, hm], h.wrc, h.none, h.fresh, h.early,
            .gone (by simp [hd]) (by simp [hf]) hzero hm⟩, by simp [hd]⟩
        · have hext : s.refs.extended = false := by
            cases hext : s.refs.extended with
            | false => rfl
            | true => exact absurd (Or.inr ⟨hext, Nat.pos_of_ne_zero hm⟩) hmore
          rw [decStrongRef_dead hn hs hw hlt hzero hext (Nat.pos_of_ne_zero hm) hc,
            if_pos ⟨hzero, fun htrue => absurd (htrue.symm.trans hext) nofun⟩]
          exact ⟨⟨by simp, nofun, by simp [hzero], h.wrc, h.none, h.fresh, h.early,
            .dead (by simp [hd]) hf hr rfl hext rfl hzero (Nat.pos_of_ne_zero hm)⟩, by simp [hd]⟩

/-! ## `AttemptIncStrongRef` -/

theorem attemptSuccess_eq (s₁ : State) {curCount : Int} (hlo : 0 ≤ curCount)
    (hs : s₁.refs.strong = curCount + 1)
    (hgood : 0 < curCount ∨ s₁.refs.extended = true) :
    ∃ k, s₁.attemptSuccess curCount = (true, k, { s₁ with
      refs := { s₁.refs with
        strong := if curCount = initialPrimaryValue then 1 else curCount + 1 } }) := by
  unfold State.attemptSuccess
  by_cases hinit : curCount = initialPrimaryValue
  · have hone : int32 (s₁.refs.strong - initialPrimaryValue) = 1 := by
      rw [hs, hinit]
      decide
    rw [if_pos hinit, if_pos hinit]
    simp only [State.setStrong, hone]
    exact ⟨_, rfl⟩
  · have hnot : ¬ (curCount < 0 ∨ (!s₁.refs.extended) = true ∧ curCount = 0) := by
      rintro (hneg | ⟨hext, hzero⟩)
      · omega
      · rcases hgood with hpos | htrue
        · omega
        · rw [htrue] at hext
          cases hext
    rw [if_neg hinit, if_neg hinit, if_neg hnot, ← hs]
    exact ⟨_, rfl⟩

/-- It succeeds where the object is not destroyed. -/
theorem counterAttempt_alive (hlo : 0 ≤ s.refs.strong) (hhi : s.refs.strong ≤ initialPrimaryValue)
    (hgood : 0 < s.refs.strong ∨ s.refs.extended = true) :
    ∃ k, s.counterAttemptIncStrongRef true = (true, k, { s with
      refs := { s.refs with
        strong := if s.refs.strong = initialPrimaryValue then 1 else s.refs.strong + 1
        weak := int32 (s.refs.weak + 1) } }) := by
  have hadd : int32 (s.refs.strong + 1) = s.refs.strong + 1 := by
    unfold initialPrimaryValue at hhi
    exact int32_eq (by omega) (by omega)
  have hsuccess := attemptSuccess_eq (s.incWeakRefCount.setStrong (s.refs.strong + 1)) hlo hadd hgood
  unfold State.counterAttemptIncStrongRef
  simp only
  split
  · exact hsuccess
  · rename_i hnot
    have hext : s.refs.extended = true := by
      by_contra hfalse
      have hpos := hgood.resolve_right hfalse
      refine hnot ?_
      by_cases hinit : s.refs.strong = initialPrimaryValue
      · refine Or.inr ⟨hinit, ?_⟩
        show (!s.refs.extended) = true
        simpa using hfalse
      · exact Or.inl ⟨hpos, hinit⟩
    rw [if_pos (show s.incWeakRefCount.refs.extended = true from hext), if_neg (by simp)]
    exact hsuccess

/-- It fails where the object is destroyed, and leaves no trace. -/
theorem counterAttempt_dead {m : Nat} (hs : s.refs.strong = 0) (hext : s.refs.extended = false)
    (hw : s.refs.weak = m + 1) (hlt : m + 2 < 2 ^ 31) :
    s.counterAttemptIncStrongRef true = (false, 0, s) := by
  have hadd : int32 (s.refs.weak + 1) = m + 2 := by
    rw [hw]
    exact int32_eq (by omega) (by omega)
  have hback : s.incWeakRefCount.decWeakRefCount = s := by
    refine (decWeakRefCount_more (k := m) hadd (by omega)).trans ?_
    have hself : ((m + 1 : Nat) : Int) = s.refs.weak := by
      rw [hw]
      rfl
    rw [hself]
    rfl
  unfold State.counterAttemptIncStrongRef
  simp only [hs]
  rw [if_neg (by simp [initialPrimaryValue]),
    if_neg (show ¬ s.incWeakRefCount.refs.extended = true by
      show ¬ s.refs.extended = true
      rw [hext]; exact nofun)]
  unfold State.attemptSuccess
  have hnot : (!s.incWeakRefCount.refs.extended) = true := by
    show (!s.refs.extended) = true
    rw [hext]
    rfl
  rw [if_neg zero_ne_initial, if_pos (Or.inr ⟨hnot, rfl⟩), hback]

/-- What `promote` takes: a strong reference, unless the object is destroyed. -/
theorem Tally.attempt (h : Tally s n f used) (hn : n + 1 < 2 ^ 28)
    (hlt : n + s.wrcs.card + 1 < 2 ^ 31) {w : Nat} (hw : w ∈ s.wrcs) :
    s.destroyed = 0 ∧ s.refs.callback = true ∧ (∃ k q, s.counterAttemptIncStrongRef true =
        (true, k, q) ∧ Tally q (n + 1) f true ∧ Frame s q ∧ q.destroyed = 0) ∨
      s.destroyed = 1 ∧ n = 0 ∧ s.refs.callback = false ∧
        s.counterAttemptIncStrongRef true = (false, 0, s) := by
  obtain ⟨hlo, hhi⟩ := h.strong_bounds (by omega)
  have hiff := h.strong_eq_initial (by omega)
  have hcard : 0 < s.wrcs.card := Finset.card_pos.2 ⟨w, hw⟩
  cases h.life with
  | alive hd hf hr hc hk hpos =>
      have hgood : 0 < s.refs.strong ∨ s.refs.extended = true := by
        cases hext : s.refs.extended with
        | true => exact Or.inr rfl
        | false =>
            left
            cases used with
            | false =>
                rw [hiff.2 rfl]
                decide
            | true =>
                rw [h.strong]
                simpa using hpos hext rfl
      obtain ⟨k, hk'⟩ := counterAttempt_alive hlo hhi hgood
      have hweak : int32 (s.refs.weak + 1) = s.refs.weak + 1 := by
        rw [h.weak]
        exact int32_eq (by omega) (by omega)
      rw [hweak] at hk'
      refine Or.inl ⟨hd, hc, k, _, hk', ⟨?_, nofun, ?_, h.wrc, h.none, h.fresh, h.early,
        .alive hd hf hr hc hk fun _ _ => Nat.succ_pos n⟩, ⟨rfl, rfl, rfl, rfl, rfl, rfl, rfl⟩, hd⟩
      · cases used with
        | false => simp [hiff.2 rfl, h.unused rfl]
        | true =>
            have hstrong := h.strong
            simp only [if_true] at hstrong ⊢
            rw [if_neg fun heq => absurd (hiff.1 heq) nofun, hstrong]
            simp
      · show s.refs.weak + 1 = _
        rw [h.weak]
        push_cast
        omega
  | dead hd hf hr hc hx hu hzero hm =>
      have hs : s.refs.strong = 0 := by
        rw [h.strong, hu, hzero]
        rfl
      have hweak : s.refs.weak = ((s.wrcs.card - 1 : Nat) : Int) + 1 := by
        rw [h.weak]
        omega
      exact Or.inr ⟨hd, hzero, hc, counterAttempt_dead hs hx hweak (by omega)⟩
  | gone _ _ _ hm => omega

/-! ## `WeakRefCounter`s -/

theorem createWeakRef_eq (s : State) :
    s.createWeakRef.wrcIncWeakRefCount s.next = { s with
      refs := { s.refs with
        refCount := int32 (s.refs.refCount + 1)
        weak := int32 (s.refs.weak + 1) }
      wrcs := insert s.next s.wrcs
      wrc := Function.update s.wrc s.next { weak := 1 }
      next := s.next + 1 } := by
  have hone : int32 (0 + 1) = 1 := int32_eq (by omega) (by omega)
  unfold State.wrcIncWeakRefCount State.createWeakRef State.incRefCount State.setWrc
  simp only [Function.update_self, hone, if_true, State.incWeakRefCount, State.setWeak,
    Function.update_idem]

/-- `CreateWeakRef`, and the first `wptr` of the new `WeakRefCounter`. -/
theorem Tally.newWrc (h : Tally s n f used) (halive : s.destroyed = 0)
    (hlt : n + s.wrcs.card + 2 < 2 ^ 31) :
    Tally (s.createWeakRef.wrcIncWeakRefCount s.next) n (Function.update f s.next 1) used := by
  have hnext : s.next ∉ s.wrcs := fun hmem => (h.fresh _ hmem).false
  have hcard : (insert s.next s.wrcs).card = s.wrcs.card + 1 := Finset.card_insert_of_notMem hnext
  have hweak : int32 (s.refs.weak + 1) = s.refs.weak + 1 := by
    rw [h.weak]
    exact int32_eq (by omega) (by omega)
  rw [createWeakRef_eq, hweak]
  refine ⟨h.strong, h.unused, ?_, fun w hw => ?_, fun w hw => ?_, fun w hw => ?_, h.early, ?_⟩
  · show s.refs.weak + 1 = (n : Int) + (insert s.next s.wrcs).card
    rw [h.weak, hcard]
    push_cast
    omega
  · show (Function.update s.wrc s.next { weak := 1 } w).weak = _ ∧ _
    by_cases heq : w = s.next
    · rw [heq, Function.update_self, Function.update_self]
      exact ⟨rfl, Nat.one_pos⟩
    · rw [Function.update_of_ne heq, Function.update_of_ne heq]
      exact h.wrc w (Finset.mem_of_mem_insert_of_ne hw heq)
  · have hne : w ≠ s.next := fun heq => hw (heq ▸ Finset.mem_insert_self _ _)
    rw [Function.update_of_ne hne]
    exact h.none w fun hmem => hw (Finset.mem_insert_of_mem hmem)
  · rcases Finset.mem_insert.1 hw with rfl | hmem
    · exact Nat.lt_succ_self _
    · exact (h.fresh w hmem).trans (Nat.lt_succ_self _)
  · cases h.life with
    | alive hd hf hr hc hk hn =>
        refine .alive hd hf ?_ hc (fun w => ?_) hn
        · show int32 (s.refs.refCount + 1) = ((insert s.next s.wrcs).card : Int) + 1
          rw [hr, hcard, int32_eq (by omega) (by omega)]
          push_cast
          rfl
        · show (Function.update s.wrc s.next { weak := 1 } w).cookie = true
          by_cases hw : w = s.next
          · rw [hw, Function.update_self]
          · rw [Function.update_of_ne hw]
            exact hk w
    | dead hd => omega
    | gone hd => omega

/-- One more or one less `wptr` with the same `WeakRefCounter`. -/
theorem Tally.setWrc (h : Tally s n f used) {w c : Nat} (hw : w ∈ s.wrcs) (hc : 0 < c) :
    Tally (s.setWrc w { s.wrc w with weak := c }) n (Function.update f w c) used := by
  refine ⟨h.strong, h.unused, h.weak, fun w' hw' => ?_, fun w' hw' => ?_, h.fresh, h.early, ?_⟩
  · show (Function.update s.wrc w _ w').weak = _ ∧ _
    by_cases heq : w' = w
    · rw [heq, Function.update_self, Function.update_self]
      exact ⟨rfl, hc⟩
    · rw [Function.update_of_ne heq, Function.update_of_ne heq]
      exact h.wrc w' hw'
  · have hne : w' ≠ w := by
      rintro rfl
      exact hw' hw
    rw [Function.update_of_ne hne]
    exact h.none w' hw'
  · cases h.life with
    | alive hd hf hr hc hk hn =>
        refine .alive hd hf hr hc (fun w' => ?_) hn
        show (Function.update s.wrc w _ w').cookie = true
        by_cases heq : w' = w
        · rw [heq, Function.update_self]
          exact hk w
        · rw [Function.update_of_ne heq]
          exact hk w'
    | dead hd hf hr hc hx hu hn hm => exact .dead hd hf hr hc hx hu hn hm
    | gone hd hf hn hm => exact .gone hd hf hn hm

theorem Tally.wrcInc (h : Tally s n f used) {w : Nat} (hw : w ∈ s.wrcs) (hlt : f w + 1 < 2 ^ 31) :
    Tally (s.wrcIncWeakRefCount w) n (Function.update f w (f w + 1)) used ∧
      s.wrcIncWeakRefCount w = s.setWrc w { s.wrc w with weak := (f w + 1 : Nat) } := by
  obtain ⟨hcount, hpos⟩ := h.wrc w hw
  have heq : s.wrcIncWeakRefCount w = s.setWrc w { s.wrc w with weak := (f w + 1 : Nat) } := by
    have hadd : int32 ((s.wrc w).weak + 1) = (f w + 1 : Nat) := by
      rw [hcount, int32_eq (by omega) (by omega)]
      push_cast
      rfl
    unfold State.wrcIncWeakRefCount
    simp only [hadd]
    rw [if_neg (by omega)]
  rw [heq]
  exact ⟨h.setWrc hw (Nat.succ_pos _), rfl⟩

/-- A `WeakRefCounter` that is not the last reference gives its references back. -/
theorem wrcDec_more {w k : Nat} (hcount : (s.wrc w).weak = 1) (hweak : s.refs.weak = k + 2)
    (hr : s.refs.refCount = s.wrcs.card + 1) (hpos : 0 < s.wrcs.card) (hlt : k + 1 < 2 ^ 31)
    (hcard : s.wrcs.card < 2 ^ 31) :
    s.wrcDecWeakRefCount w = { s with
      refs := { s.refs with weak := (k + 1 : Nat), refCount := s.wrcs.card }
      wrcs := s.wrcs.erase w
      wrc := Function.update s.wrc w { s.wrc w with weak := 0 } } := by
  unfold State.wrcDecWeakRefCount
  simp only [hcount, Int.sub_self, int32_zero, if_true]
  have hdec : (s.setWrc w { s.wrc w with weak := 0 }).decWeakRefCount =
      { s.setWrc w { s.wrc w with weak := 0 } with
        refs := { s.refs with weak := (k + 1 : Nat) } } := decWeakRefCount_more hweak hlt
  rw [hdec]
  refine (decRefCount_eq (k := s.wrcs.card) ?_ hcard ?_).trans ?_
  · exact hr
  · omega
  · rw [if_neg (by omega)]
    rfl

/-- The last reference of all. -/
theorem wrcDec_last {w : Nat} (hcount : (s.wrc w).weak = 1) (hweak : s.refs.weak = 1)
    (hr : s.refs.refCount = 2)
    (hlife : s.refs.callback = true ∧
        (s.refs.extended = true ∨ s.refs.strong = initialPrimaryValue) ∨
      s.refs.callback = false ∧ s.refs.extended = false ∧ s.refs.strong ≠ initialPrimaryValue ∧
        s.destroyed ≠ 0) :
    s.wrcDecWeakRefCount w = { s with
      refs := { s.refs with weak := 0, refCount := 0, callback := false }
      wrcs := s.wrcs.erase w
      wrc := Function.update s.wrc w { s.wrc w with weak := 0 }
      destroyed := if s.refs.callback then s.destroyed + 1 else s.destroyed
      freed := s.freed + 1 } := by
  unfold State.wrcDecWeakRefCount
  simp only [hcount, Int.sub_self, int32_zero, if_true]
  have hdec : (s.setWrc w { s.wrc w with weak := 0 }).decWeakRefCount =
      { s.setWrc w { s.wrc w with weak := 0 } with
        refs := { s.refs with weak := 0, refCount := 1, callback := false }
        destroyed := if s.refs.callback then s.destroyed + 1 else s.destroyed } := by
    refine (decWeakRefCount_last ?_).trans ?_
    · exact hweak
    rcases hlife with ⟨hc, hbase⟩ | ⟨hc, hext, hne, -⟩
    · refine (if_pos hbase).trans ?_
      refine (callback_release (k := 1) ?_ ?_ ?_ (by omega)).trans ?_
      · exact hc
      · rcases hbase with hext | hinit
        · exact Or.inl ⟨hext, rfl⟩
        · exact Or.inr hinit
      · exact hr
      · rw [if_pos hc]
        rfl
    · rw [if_neg (by simp [State.setWrc, hext, hne]), hc]
      refine (decRefCount_eq (k := 1) ?_ (by omega) nofun).trans ?_
      · exact hr
      · simp [State.setWrc, hc]
  rw [hdec]
  refine (decRefCount_eq (k := 0) ?_ (by omega) fun _ => ?_).trans ?_
  · rfl
  · rcases hlife with ⟨hc, -⟩ | ⟨hc, -, -, hdead⟩
    · simp [hc]
    · simpa [hc] using hdead
  · rfl

theorem wrcDec_shared {w c : Nat} (hcount : (s.wrc w).weak = c + 2) (hlt : c + 1 < 2 ^ 31) :
    s.wrcDecWeakRefCount w = s.setWrc w { s.wrc w with weak := (c + 1 : Nat) } := by
  have hsub : int32 ((s.wrc w).weak - 1) = (c + 1 : Nat) := by
    rw [int32_eq (by omega) (by omega)]
    omega
  unfold State.wrcDecWeakRefCount
  simp only [hsub]
  rw [if_neg (by omega)]

/-- The counts of the `WeakRefCounter`s when one of them has gone. -/
theorem Tally.erased (h : Tally s n f used) (w : Nat) (s' : State)
    (hwrcs : s'.wrcs = s.wrcs.erase w)
    (hwrc : s'.wrc = Function.update s.wrc w { s.wrc w with weak := 0 }) (hnext : s'.next = s.next) :
    (∀ w' ∈ s'.wrcs, (s'.wrc w').weak = Function.update f w 0 w' ∧ 0 < Function.update f w 0 w') ∧
      (∀ w', w' ∉ s'.wrcs → Function.update f w 0 w' = 0) ∧ ∀ w' ∈ s'.wrcs, w' < s'.next := by
  rw [hwrcs, hwrc, hnext]
  refine ⟨fun w' hw' => ?_, fun w' hw' => ?_, fun w' hw' => h.fresh w' (Finset.mem_of_mem_erase hw')⟩
  · have hne := Finset.ne_of_mem_erase hw'
    rw [Function.update_of_ne hne, Function.update_of_ne hne]
    exact h.wrc w' (Finset.mem_of_mem_erase hw')
  · by_cases heq : w' = w
    · rw [heq, Function.update_self]
    · rw [Function.update_of_ne heq]
      exact h.none w' fun hmem => hw' (Finset.mem_erase.2 ⟨heq, hmem⟩)

/-- The last `wptr` of a `WeakRefCounter` is given up. -/
theorem Tally.wrcDec_one (h : Tally s n f used) {w : Nat} (hw : w ∈ s.wrcs) (hone : f w = 1)
    (hn : n < 2 ^ 28) (hlt : n + s.wrcs.card < 2 ^ 31) :
    Tally (s.wrcDecWeakRefCount w) n (Function.update f w 0) used ∧
      (s.wrcDecWeakRefCount w).wrcs = s.wrcs.erase w ∧
      (s.wrcDecWeakRefCount w).destroyed =
        if s.destroyed = 0 ∧ n + s.wrcs.card = 1 then 1 else s.destroyed := by
  have hcount : (s.wrc w).weak = 1 := by
    rw [(h.wrc w hw).1, hone]
    rfl
  have hpos : 0 < s.wrcs.card := Finset.card_pos.2 ⟨w, hw⟩
  have hcard : (s.wrcs.erase w).card = s.wrcs.card - 1 := Finset.card_erase_of_mem hw
  have hweak := h.weak
  have hiff := h.strong_eq_initial hn
  by_cases hlast : n + s.wrcs.card = 1
  · have hr : s.refs.refCount = 2 := by
      cases h.life with
      | alive _ _ hr => omega
      | dead _ _ hr => omega
      | gone _ _ _ hm => omega
    have hlife : s.refs.callback = true ∧ s.destroyed = 0 ∧ s.freed = 0 ∧
          (s.refs.extended = true ∨ s.refs.strong = initialPrimaryValue) ∨
        s.refs.callback = false ∧ s.destroyed = 1 ∧ s.freed = 0 ∧ s.refs.extended = false ∧
          s.refs.strong ≠ initialPrimaryValue ∧ s.destroyed ≠ 0 := by
      cases h.life with
      | alive hd hf _ hc _ hn =>
          refine Or.inl ⟨hc, hd, hf, ?_⟩
          cases hext : s.refs.extended with
          | true => exact Or.inl rfl
          | false =>
              refine Or.inr (hiff.2 ?_)
              cases used with
              | false => rfl
              | true =>
                  have := hn hext rfl
                  omega
      | dead hd hf _ hc hx hu =>
          exact Or.inr ⟨hc, hd, hf, hx, fun heq => absurd (hu.symm.trans (hiff.1 heq)) nofun, by omega⟩
      | gone _ _ _ hm => omega
    have heq := wrcDec_last hcount (by omega) hr (hlife.imp (fun h => ⟨h.1, h.2.2.2⟩)
      fun h => ⟨h.1, h.2.2.2⟩)
    obtain ⟨hwrc, hnone, hfresh⟩ := h.erased w (s.wrcDecWeakRefCount w) (by rw [heq])
      (by rw [heq]) (by rw [heq])
    rw [heq] at hwrc hnone hfresh ⊢
    have hdestroyed : (if s.refs.callback = true then s.destroyed + 1 else s.destroyed) = 1 := by
      rcases hlife with ⟨hc, hd, -⟩ | ⟨hc, hd, -⟩
      · rw [if_pos hc, hd]
      · rw [hc]
        exact hd
    refine ⟨⟨h.strong, h.unused, ?_, hwrc, hnone, hfresh, h.early,
      .gone hdestroyed ?_ (by omega) ?_⟩, rfl, ?_⟩
    · show (0 : Int) = n + (s.wrcs.erase w).card
      omega
    · show s.freed + 1 = 1
      rcases hlife with ⟨-, -, hf, -⟩ | ⟨-, -, hf, -⟩ <;> rw [hf]
    · show (s.wrcs.erase w).card = 0
      omega
    · refine Eq.trans hdestroyed ?_
      rcases hlife with ⟨-, hd, -⟩ | ⟨-, hd, -⟩
      · rw [if_pos ⟨hd, hlast⟩]
      · rw [if_neg (by omega), hd]
  · have hr : s.refs.refCount = s.wrcs.card + 1 := by
      cases h.life with
      | alive _ _ hr => exact hr
      | dead _ _ hr => exact hr
      | gone _ _ _ hm => omega
    have heq := wrcDec_more (k := n + s.wrcs.card - 2) hcount (by omega) hr hpos (by omega) (by omega)
    obtain ⟨hwrc, hnone, hfresh⟩ := h.erased w (s.wrcDecWeakRefCount w) (by rw [heq])
      (by rw [heq]) (by rw [heq])
    rw [heq] at hwrc hnone hfresh ⊢
    refine ⟨⟨h.strong, h.unused, ?_, hwrc, hnone, hfresh, h.early, ?_⟩, rfl,
      (if_neg fun hb => hlast hb.2).symm⟩
    · show ((n + s.wrcs.card - 2 + 1 : Nat) : Int) = n + (s.wrcs.erase w).card
      omega
    · cases h.life with
      | alive hd hf hr hc hk hn =>
          refine .alive hd hf ?_ hc (fun w' => ?_) hn
          · show (s.wrcs.card : Int) = (s.wrcs.erase w).card + 1
            omega
          · show (Function.update s.wrc w _ w').cookie = true
            by_cases hw' : w' = w
            · rw [hw', Function.update_self]
              exact hk w
            · rw [Function.update_of_ne hw']
              exact hk w'
      | dead hd hf hr hc hx hu hn hm =>
          refine .dead hd hf ?_ hc hx hu hn ?_
          · show (s.wrcs.card : Int) = (s.wrcs.erase w).card + 1
            omega
          · show 0 < (s.wrcs.erase w).card
            omega
      | gone _ _ _ hm => omega

/-- A `wptr` is given up, and the `WeakRefCounter` with its last one; the object goes with the last
reference of all if it still is there. -/
theorem Tally.wrcDec (h : Tally s n f used) {w : Nat} (hw : w ∈ s.wrcs) (hn : n < 2 ^ 28)
    (hlt : n + s.wrcs.card < 2 ^ 31) (hf : f w < 2 ^ 31) :
    Tally (s.wrcDecWeakRefCount w) n (Function.update f w (f w - 1)) used ∧
      (s.wrcDecWeakRefCount w).wrcs = (if f w = 1 then s.wrcs.erase w else s.wrcs) ∧
      (s.wrcDecWeakRefCount w).destroyed =
        if s.destroyed = 0 ∧ n + s.wrcs.card = 1 ∧ f w = 1 then 1 else s.destroyed := by
  obtain ⟨hcount, hpos⟩ := h.wrc w hw
  by_cases hone : f w = 1
  · obtain ⟨htally, hwrcs, hdestroyed⟩ := h.wrcDec_one hw hone hn hlt
    refine ⟨?_, hwrcs.trans (if_pos hone).symm, hdestroyed.trans ?_⟩
    · rw [hone]
      exact htally
    · simp only [hone, and_true]
  · have heq := wrcDec_shared (s := s) (w := w) (c := f w - 2) (by omega) (by omega)
    have hc : f w - 2 + 1 = f w - 1 := by omega
    rw [hc] at heq
    rw [heq]
    exact ⟨h.setWrc hw (by omega), (if_neg hone).symm, (if_neg fun hall => hone hall.2.2).symm⟩

/-! ## The pointers -/

/-- The pointers and the lifetime are as before. -/
structure Pointers (s s' : State) : Prop where
  sptrs : s'.sptrs = s.sptrs
  wptrs : s'.wptrs = s.wptrs
  target : s'.target = s.target
  extended : s'.refs.extended = s.refs.extended

theorem wrcDecWeakRefCount_pointers (s : State) (w : Nat) : Pointers s (s.wrcDecWeakRefCount w) := by
  unfold State.wrcDecWeakRefCount
  simp only
  split
  · have hdec := State.decWeakRefCount_frame
      (s.setWrc w { s.wrc w with weak := int32 ((s.wrc w).weak - 1) })
    have href := State.decRefCount_frame
      { (s.setWrc w { s.wrc w with weak := int32 ((s.wrc w).weak - 1) }).decWeakRefCount with
        wrcs := (s.setWrc w
          { s.wrc w with weak := int32 ((s.wrc w).weak - 1) }).decWeakRefCount.wrcs.erase w }
    exact ⟨href.sptrs.trans hdec.sptrs, href.wptrs.trans hdec.wptrs, href.target.trans hdec.target,
      href.extended.trans hdec.extended⟩
  · exact ⟨rfl, rfl, rfl, rfl⟩

theorem wrcIncWeakRefCount_pointers (s : State) (w : Nat) : Pointers s (s.wrcIncWeakRefCount w) := by
  unfold State.wrcIncWeakRefCount
  simp only
  split <;> exact ⟨rfl, rfl, rfl, rfl⟩

theorem createWeakRef_pointers (s : State) :
    Pointers s (s.createWeakRef.wrcIncWeakRefCount s.next) := by
  rw [createWeakRef_eq]
  exact ⟨rfl, rfl, rfl, rfl⟩

/-- The `wptr`s with a `WeakRefCounter`. -/
def wptrsOf (wptrs : Finset Nat) (target : Nat → Nat) (w : Nat) : Nat :=
  (wptrs.filter (target · = w)).card

section WptrsOf

variable {wptrs : Finset Nat} {target : Nat → Nat} {i j w : Nat}

theorem wptrsOf_insert (hj : j ∉ wptrs) :
    wptrsOf (insert j wptrs) (Function.update target j w) =
      Function.update (wptrsOf wptrs target) w (wptrsOf wptrs target w + 1) := by
  have hsame : ∀ w', wptrs.filter (Function.update target j w · = w') =
      wptrs.filter (target · = w') := by
    intro w'
    refine Finset.filter_congr fun i hi => ?_
    rw [Function.update_of_ne]
    rintro rfl
    exact hj hi
  funext w'
  unfold wptrsOf
  rw [Finset.filter_insert, Function.update_self, hsame]
  by_cases hw : w' = w
  · subst hw
    rw [if_pos rfl, Function.update_self, Finset.card_insert_of_notMem]
    exact fun hmem => hj (Finset.mem_filter.1 hmem).1
  · rw [if_neg (Ne.symm hw), Function.update_of_ne hw]

theorem wptrsOf_erase (hi : i ∈ wptrs) :
    wptrsOf (wptrs.erase i) target =
      Function.update (wptrsOf wptrs target) (target i) (wptrsOf wptrs target (target i) - 1) := by
  funext w
  unfold wptrsOf
  rw [Finset.filter_erase]
  by_cases hw : w = target i
  · subst hw
    have hmem : i ∈ wptrs.filter (target · = target i) := Finset.mem_filter.2 ⟨hi, rfl⟩
    rw [Function.update_self, Finset.card_erase_of_mem hmem]
  · rw [Function.update_of_ne hw, Finset.erase_eq_of_notMem]
    exact fun hmem => hw (Finset.mem_filter.1 hmem).2.symm

theorem wptrsOf_pos (hi : i ∈ wptrs) : 0 < wptrsOf wptrs target (target i) :=
  Finset.card_pos.2 ⟨i, Finset.mem_filter.2 ⟨hi, rfl⟩⟩

/-- A `wptr` that is assigned to: the new `WeakRefCounter` gains before the old one loses. -/
theorem wptrsOf_update (hj : j ∈ wptrs) :
    wptrsOf (insert j wptrs) (Function.update target j w) =
      Function.update (Function.update (wptrsOf wptrs target) w (wptrsOf wptrs target w + 1))
        (target j)
        (Function.update (wptrsOf wptrs target) w (wptrsOf wptrs target w + 1) (target j) - 1) := by
  have hpos : 0 < wptrsOf wptrs target (target j) := wptrsOf_pos hj
  have hset : insert j wptrs = insert j (wptrs.erase j) := by
    rw [Finset.insert_erase hj, Finset.insert_eq_of_mem hj]
  rw [hset, wptrsOf_insert (Finset.notMem_erase j wptrs), wptrsOf_erase hj]
  generalize wptrsOf wptrs target = f at hpos ⊢
  by_cases hsame : w = target j
  · subst hsame
    simp only [Function.update_self, Function.update_idem]
    rw [Nat.sub_add_cancel hpos, Nat.add_sub_cancel]
  · rw [Function.update_of_ne hsame, Function.update_of_ne (Ne.symm hsame),
      Function.update_comm (Ne.symm hsame)]

end WptrsOf

end CUtils.RefBases
