import CUtils.RefBase.Model

/-!
# What the parts of the operations do

What the functions of `RefCounter`, `RefBase` and `WeakRefCounter` leave alone: most of them the
pointers (`Frame`), many the strong count (`Same`). Taking a strong reference either leaves the
initial value or adds one (`Acquired`).
-/

namespace CUtils.RefBases

theorem int32_eq {n : Int} (hlo : -2 ^ 31 ≤ n) (hhi : n < 2 ^ 31) : int32 n = n := by
  unfold int32
  rw [Int.bmod_eq_of_le (by omega) (by omega)]

/-- The pointers, the weak counters and the lifetime are as before. -/
structure Frame (s s' : State) : Prop where
  wrcs : s'.wrcs = s.wrcs
  wrc : s'.wrc = s.wrc
  next : s'.next = s.next
  sptrs : s'.sptrs = s.sptrs
  wptrs : s'.wptrs = s.wptrs
  target : s'.target = s.target
  extended : s'.refs.extended = s.refs.extended

theorem Frame.refl (s : State) : Frame s s := ⟨rfl, rfl, rfl, rfl, rfl, rfl, rfl⟩

theorem Frame.trans {s s' s'' : State} (h : Frame s s') (h' : Frame s' s'') : Frame s s'' :=
  ⟨h'.wrcs.trans h.wrcs, h'.wrc.trans h.wrc, h'.next.trans h.next, h'.sptrs.trans h.sptrs,
    h'.wptrs.trans h.wptrs, h'.target.trans h.target, h'.extended.trans h.extended⟩

namespace State

theorem decRefCount_frame (s : State) : Frame s s.decRefCount := by
  unfold decRefCount
  split <;> exact ⟨rfl, rfl, rfl, rfl, rfl, rfl, rfl⟩

theorem callback_frame (s : State) : Frame s s.callback := by
  unfold callback destructor
  split
  · simp only
    split
    · have hdec := decRefCount_frame { s with
        refs := { s.refs with callback := false }, destroyed := s.destroyed + 1 }
      exact ⟨hdec.wrcs, hdec.wrc, hdec.next, hdec.sptrs, hdec.wptrs, hdec.target, hdec.extended⟩
    · exact ⟨rfl, rfl, rfl, rfl, rfl, rfl, rfl⟩
  · exact Frame.refl s

theorem decWeakRefCount_frame (s : State) : Frame s s.decWeakRefCount := by
  have hset : Frame s (if s.refs.weak > 0 then s.setWeak (s.refs.weak - 1) else s) := by
    split <;> exact ⟨rfl, rfl, rfl, rfl, rfl, rfl, rfl⟩
  unfold decWeakRefCount
  simp only
  set q := if s.refs.weak > 0 then s.setWeak (s.refs.weak - 1) else s
  split
  · exact hset
  · split
    · exact hset.trans (callback_frame _)
    · split
      · exact hset.trans (callback_frame _)
      · exact hset.trans (decRefCount_frame _)

theorem decStrongRefCount_frame (s : State) : Frame s s.decStrongRefCount.2 := by
  unfold decStrongRefCount
  simp only
  split
  · exact Frame.refl s
  · split <;> exact ⟨rfl, rfl, rfl, rfl, rfl, rfl, rfl⟩

theorem decStrongRef_frame (s : State) : Frame s s.decStrongRef := by
  unfold decStrongRef
  simp only
  refine Frame.trans ?_ (decWeakRefCount_frame _)
  split
  · exact (decStrongRefCount_frame s).trans (callback_frame _)
  · exact decStrongRefCount_frame s

end State

/-- The strong count and what has been told about it are as before. -/
structure Same (s s' : State) : Prop where
  strong : s'.refs.strong = s.refs.strong
  fired : s'.fired = s.fired

theorem Same.refl (s : State) : Same s s := ⟨rfl, rfl⟩

theorem Same.trans {s s' s'' : State} (h : Same s s') (h' : Same s' s'') : Same s s'' :=
  ⟨h'.strong.trans h.strong, h'.fired.trans h.fired⟩

theorem Same.after {s s' s'' : State} (h : Same s' s'') (hstrong : s'.refs.strong = s.refs.strong)
    (hfired : s'.fired = s.fired) : Same s s'' :=
  Same.trans ⟨hstrong, hfired⟩ h

theorem zero_ne_initial : (0 : Int) ≠ initialPrimaryValue := by decide

/-! ## What leaves the strong count alone -/

namespace State

theorem decRefCount_same (s : State) : Same s s.decRefCount := by
  unfold decRefCount
  split <;> exact ⟨rfl, rfl⟩

theorem callback_same (s : State) : Same s s.callback := by
  unfold callback destructor
  split
  · simp only
    split
    · exact (decRefCount_same _).after rfl rfl
    · exact ⟨rfl, rfl⟩
  · exact Same.refl s

theorem decWeakRefCount_same (s : State) : Same s s.decWeakRefCount := by
  have hset : Same s (if s.refs.weak > 0 then s.setWeak (s.refs.weak - 1) else s) := by
    split <;> exact ⟨rfl, rfl⟩
  unfold decWeakRefCount
  simp only
  set q := if s.refs.weak > 0 then s.setWeak (s.refs.weak - 1) else s
  split
  · exact hset
  · split
    · exact hset.trans (callback_same _)
    · split
      · exact hset.trans (callback_same _)
      · exact hset.trans (decRefCount_same _)

theorem createWeakRef_same (s : State) : Same s s.createWeakRef := ⟨rfl, rfl⟩

theorem wrcIncWeakRefCount_same (s : State) (w : Nat) : Same s (s.wrcIncWeakRefCount w) := by
  unfold wrcIncWeakRefCount
  simp only
  split <;> exact ⟨rfl, rfl⟩

theorem wrcDecWeakRefCount_same (s : State) (w : Nat) : Same s (s.wrcDecWeakRefCount w) := by
  unfold wrcDecWeakRefCount
  simp only
  split
  · have hdec := decWeakRefCount_same
      (s.setWrc w { s.wrc w with weak := int32 ((s.wrc w).weak - 1) })
    exact (decRefCount_same _).after hdec.strong hdec.fired
  · exact ⟨rfl, rfl⟩

theorem getRefPtr_same (s : State) (w : Nat) : Same s (s.getRefPtr w).2 := by
  unfold getRefPtr
  simp only
  split <;> exact ⟨rfl, rfl⟩

theorem getRefPtr_extended (s : State) (w : Nat) :
    (s.getRefPtr w).2.refs.extended = s.refs.extended := by
  unfold getRefPtr
  simp only
  split <;> rfl

theorem dropWptr_same (s : State) (i : Nat) : Same s (s.dropWptr i) := by
  unfold dropWptr
  split
  · exact Same.trans (wrcDecWeakRefCount_same s _) ⟨rfl, rfl⟩
  · exact Same.refl s

/-- The last part of an assignment to a `wptr`. -/
theorem dropTarget_same (s : State) (j : Nat) :
    Same s (if j ∈ s.wptrs then s.wrcDecWeakRefCount (s.target j) else s) := by
  split
  · exact wrcDecWeakRefCount_same s _
  · exact Same.refl s

end State

/-! ## Taking and releasing -/

/-- A reference has been taken: the count has left the initial value, or it is one up. -/
structure Acquired (s s' : State) : Prop where
  strong : s'.refs.strong =
    if s.refs.strong = initialPrimaryValue then 1 else s.refs.strong + 1
  fired : s'.fired = s.fired

theorem decStrongRef_tail (s : State) :
    Same s.decStrongRefCount.2 s.decStrongRef := by
  unfold State.decStrongRef
  simp only
  refine Same.trans ?_ (State.decWeakRefCount_same _)
  split
  · exact State.callback_same _
  · exact Same.refl _

/-- `IncStrongRefCount` returns the count before. -/
theorem incStrongRefCount_acquired {s : State} (hlo : 0 ≤ s.refs.strong)
    (hhi : s.refs.strong ≤ initialPrimaryValue) :
    s.incStrongRefCount.1 = s.refs.strong ∧ Acquired s s.incStrongRefCount.2 := by
  unfold initialPrimaryValue at hhi
  have hadd : int32 (s.refs.strong + 1) = s.refs.strong + 1 := int32_eq (by omega) (by omega)
  unfold State.incStrongRefCount
  simp only [State.setStrong, ge_iff_le, if_pos hlo, hadd]
  by_cases hinit : s.refs.strong = initialPrimaryValue
  · simp only [if_pos hinit]
    refine ⟨trivial, ?_, rfl⟩
    rw [if_pos hinit]
    show int32 (s.refs.strong + 1 - initialPrimaryValue) = 1
    rw [hinit]
    decide
  · simp only [if_neg hinit]
    refine ⟨trivial, ?_, rfl⟩
    rw [if_neg hinit]

/-- Where no reference is taken, `outCount` is left alone. -/
theorem attemptSuccess_false {s : State} {curCount : Int} (h : (s.attemptSuccess curCount).1 = false) :
    (s.attemptSuccess curCount).2.1 ≠ initialPrimaryValue := by
  unfold State.attemptSuccess at h ⊢
  split at h
  · exact absurd h (by simp)
  · rename_i hne
    rw [if_neg hne]
    split <;> exact zero_ne_initial

theorem counterAttemptIncStrongRef_false (s : State) (canPromote : Bool)
    (h : (s.counterAttemptIncStrongRef canPromote).1 = false) :
    (s.counterAttemptIncStrongRef canPromote).2.1 ≠ initialPrimaryValue := by
  unfold State.counterAttemptIncStrongRef at h ⊢
  simp only at h ⊢
  split at h
  · rename_i hcas
    rw [if_pos hcas]
    exact attemptSuccess_false h
  · rename_i hcas
    rw [if_neg hcas]
    split at h
    · rename_i hext
      rw [if_pos hext]
      split at h
      · rename_i hno
        rw [if_pos hno]
        exact zero_ne_initial
      · rename_i hno
        rw [if_neg hno]
        exact attemptSuccess_false h
    · rename_i hext
      rw [if_neg hext]
      exact attemptSuccess_false h

/-- **What `AttemptIncStrongRef` does to the strong count**: it leaves it, or takes a reference and
says so in `outCount` if that was the first one. -/
theorem counterAttemptIncStrongRef_cases {s : State} (hlo : 0 ≤ s.refs.strong)
    (hhi : s.refs.strong ≤ initialPrimaryValue) (canPromote : Bool) :
    ((s.counterAttemptIncStrongRef canPromote).2.1 ≠ initialPrimaryValue ∧
        Same s (s.counterAttemptIncStrongRef canPromote).2.2) ∨
      (¬ (s.refs.strong = initialPrimaryValue ∧ s.refs.extended = true ∧ canPromote = false) ∧
        ((s.counterAttemptIncStrongRef canPromote).2.1 = initialPrimaryValue ↔
          s.refs.strong = initialPrimaryValue) ∧
        Acquired s (s.counterAttemptIncStrongRef canPromote).2.2) := by
  have hadd : int32 (s.refs.strong + 1) = s.refs.strong + 1 := by
    unfold initialPrimaryValue at hhi
    exact int32_eq (by omega) (by omega)
  -- the count has been raised by one, from the value it had at first
  have hraised : ∀ q : State, q.refs.strong = s.refs.strong + 1 → q.fired = s.fired →
      (0 < s.refs.strong ∨ q.refs.extended = true) →
      ((q.attemptSuccess s.refs.strong).2.1 = initialPrimaryValue ↔
          s.refs.strong = initialPrimaryValue) ∧
        Acquired s (q.attemptSuccess s.refs.strong).2.2 := by
    intro q hq hfired hgood
    unfold State.attemptSuccess
    by_cases hinit : s.refs.strong = initialPrimaryValue
    · rw [if_pos hinit]
      refine ⟨by simp, ?_, hfired⟩
      rw [if_pos hinit]
      show int32 (q.refs.strong - initialPrimaryValue) = 1
      rw [hq, hinit]
      decide
    · rw [if_neg hinit, if_neg]
      · refine ⟨iff_of_false zero_ne_initial hinit, ?_, hfired⟩
        rw [if_neg hinit]
        exact hq
      · rintro (hneg | ⟨hext, hzero⟩)
        · omega
        · rcases hgood with hpos | hext'
          · omega
          · rw [hext'] at hext
            exact absurd hext (by simp)
  unfold State.counterAttemptIncStrongRef
  simp only
  by_cases hcas : (s.refs.strong > 0 ∧ s.refs.strong ≠ initialPrimaryValue) ∨
      (s.refs.strong = initialPrimaryValue ∧ (!s.incWeakRefCount.refs.extended) = true)
  · rw [if_pos hcas]
    refine Or.inr ⟨?_, hraised _ hadd rfl (Or.inl ?_)⟩
    · rintro ⟨hinit, hext, -⟩
      rcases hcas with ⟨-, hne⟩ | ⟨-, hnot⟩
      · exact hne hinit
      · change (!s.refs.extended) = true at hnot
        rw [hext] at hnot
        exact absurd hnot (by simp)
    · rcases hcas with ⟨hpos, -⟩ | ⟨hinit, -⟩
      · exact hpos
      · rw [hinit]
        decide
  · rw [if_neg hcas]
    cases hext : s.incWeakRefCount.refs.extended with
    | true =>
        rw [if_pos rfl]
        cases canPromote with
        | false => exact Or.inl ⟨zero_ne_initial, ⟨rfl, rfl⟩⟩
        | true => exact Or.inr ⟨fun h => absurd h.2.2 (by simp), hraised _ hadd rfl (Or.inr hext)⟩
    | false =>
        rw [if_neg (by simp)]
        rw [hext] at hcas
        simp only [Bool.not_false, and_true, not_or, not_and, not_not] at hcas
        have hzero : s.refs.strong = 0 := by
          by_contra hne
          exact hcas.2 (hcas.1 (by omega))
        have hne : s.refs.strong ≠ initialPrimaryValue := hcas.2
        unfold State.attemptSuccess
        rw [if_neg hne, if_pos (Or.inr ⟨by rw [hext]; rfl, hzero⟩)]
        exact Or.inl ⟨zero_ne_initial, (State.decWeakRefCount_same _).after rfl rfl⟩

end CUtils.RefBases
