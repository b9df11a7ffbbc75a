import CUtils.RefBase.Bookkeeping

/-!
# Failed promotions

`RefCounter::AttemptIncStrongRef` takes a weak reference before anything else. It fails on two
paths. Where the object is destroyed, `DecWeakRefCount` gives the reference back and the counter is
as before. Where the lifetime is extended, no strong reference is held and `CanPromote` denies one
(`State.Vetoed`), the function returns at once and the reference stays.

`attempt_keeps_iff` says so for every counter on which somebody holds a weak reference (`Held`), and
`failed_promotion_keeps_counts` for every state of a run.
-/

namespace CUtils.RefBases

open StateRun

variable {s : State} {used : Bool}

/-- The strong, the weak and the reference count are as before. -/
structure SameCounts (s s' : State) : Prop where
  strong : s'.refs.strong = s.refs.strong
  weak : s'.refs.weak = s.refs.weak
  refCount : s'.refs.refCount = s.refs.refCount

/-- `CanPromote` is asked, and denies: the lifetime is extended and there is no strong reference. -/
def State.Vetoed (s : State) (canPromote : Bool) : Prop :=
  s.refs.extended = true ∧ (s.refs.strong = 0 ∨ s.refs.strong = initialPrimaryValue) ∧
    canPromote = false

instance (s : State) (canPromote : Bool) : Decidable (s.Vetoed canPromote) :=
  inferInstanceAs (Decidable (_ ∧ _))

/-- Somebody holds a weak reference, and there is room for one more. -/
structure Held (s : State) : Prop where
  strong : 0 ≤ s.refs.strong
  weak_pos : 0 < s.refs.weak
  weak_lt : s.refs.weak + 1 < 2 ^ 31

/-! ## One attempt -/

/-- The veto returns with the weak reference taken. -/
theorem attempt_vetoed {canPromote : Bool} (hveto : s.Vetoed canPromote) :
    s.counterAttemptIncStrongRef canPromote = (false, 0, s.incWeakRefCount) := by
  obtain ⟨hext, hstrong, rfl⟩ := hveto
  have hext' : s.incWeakRefCount.refs.extended = true := hext
  unfold State.counterAttemptIncStrongRef
  simp only [hext', Bool.not_true, Bool.false_eq_true, and_false, or_false]
  rw [if_neg]
  · rfl
  · intro hpos
    rcases hstrong with hzero | hinit
    · omega
    · exact hpos.2 hinit

/-- Without a veto it makes no difference what `CanPromote` says. -/
theorem attempt_granted {canPromote : Bool} (hlo : 0 ≤ s.refs.strong)
    (hveto : ¬ s.Vetoed canPromote) :
    s.counterAttemptIncStrongRef canPromote = s.counterAttemptIncStrongRef true := by
  cases canPromote with
  | true => rfl
  | false =>
      unfold State.counterAttemptIncStrongRef
      simp only
      split
      · rfl
      · rename_i hcas
        split
        · rename_i hext
          refine absurd ⟨hext, ?_, rfl⟩ hveto
          by_contra hne
          refine hcas (Or.inl ⟨?_, fun hinit => hne (Or.inr hinit)⟩)
          by_contra hnot
          exact hne (Or.inl (by omega))
        · rfl

theorem attemptSuccess_true {q : State} {curCount : Int} (hlo : 0 ≤ curCount)
    (hgood : 0 < curCount ∨ q.refs.extended = true) : (q.attemptSuccess curCount).1 = true := by
  unfold State.attemptSuccess
  split
  · rfl
  · rw [if_neg]
    rintro (hneg | ⟨hext, hzero⟩)
    · omega
    · rcases hgood with hpos | htrue
      · omega
      · rw [htrue] at hext
        cases hext

/-- The attempt succeeds unless the object is destroyed. -/
theorem attempt_true (hlo : 0 ≤ s.refs.strong)
    (hgood : 0 < s.refs.strong ∨ s.refs.extended = true) :
    (s.counterAttemptIncStrongRef true).1 = true := by
  unfold State.counterAttemptIncStrongRef
  simp only
  split
  · exact attemptSuccess_true hlo hgood
  · split
    · exact attemptSuccess_true hlo hgood
    · exact attemptSuccess_true hlo hgood

/-- Without a veto an attempt that fails gives back what it took. -/
theorem attempt_failed {canPromote : Bool} (h : Held s) (hveto : ¬ s.Vetoed canPromote)
    (hfail : (s.counterAttemptIncStrongRef canPromote).1 = false) :
    (s.counterAttemptIncStrongRef canPromote).2.2 = s := by
  have hnonneg := h.strong
  rw [attempt_granted hnonneg hveto] at hfail ⊢
  have hgood : ¬ (0 < s.refs.strong ∨ s.refs.extended = true) := by
    intro hgood
    rw [attempt_true hnonneg hgood] at hfail
    cases hfail
  have hzero : s.refs.strong = 0 := by
    by_contra hne
    exact hgood (Or.inl (by omega))
  have hext : s.refs.extended = false := by
    cases hext : s.refs.extended with
    | true => exact absurd (Or.inr hext) hgood
    | false => rfl
  have hpos := h.weak_pos
  have hlt := h.weak_lt
  obtain ⟨m, hm⟩ : ∃ m : Nat, s.refs.weak = m + 1 := ⟨(s.refs.weak - 1).toNat, by omega⟩
  rw [counterAttempt_dead hzero hext hm (by omega)]

/-- **When a failed attempt leaves the counts alone**: exactly if it was not vetoed. -/
theorem attempt_keeps_iff (h : Held s) (canPromote : Bool) :
    ((s.counterAttemptIncStrongRef canPromote).1 = false →
        SameCounts s (s.counterAttemptIncStrongRef canPromote).2.2) ↔ ¬ s.Vetoed canPromote := by
  constructor
  · intro hkeeps hveto
    rw [attempt_vetoed hveto] at hkeeps
    have hweak : int32 (s.refs.weak + 1) = s.refs.weak := (hkeeps rfl).weak
    have hpos := h.weak_pos
    have hlt := h.weak_lt
    rw [int32_eq (by omega) hlt] at hweak
    omega
  · intro hveto hfail
    rw [attempt_failed h hveto hfail]
    exact ⟨rfl, rfl, rfl⟩

/-! ## Runs -/

/-- The operation, with a `CanPromote` that grants. -/
def Op.granted : Op → Op
  | .promote w i _ => .promote w i true
  | .assignWptrToSptr w i _ => .assignWptrToSptr w i true
  | op => op

/-- The operation makes an attempt that is vetoed. -/
def Op.Vetoed (s : State) : Op → Prop
  | .promote _ _ canPromote => s.Vetoed canPromote
  | .assignWptrToSptr _ i canPromote => (s.clearSptr i).Vetoed canPromote
  | _ => False

theorem Counts.held (h : Counts s used) {w : Nat} (hw : w ∈ s.wptrs)
    (hlt : s.refs.weak + 1 < 2 ^ 31) : Held s := by
  have hcard : 0 < s.wrcs.card := Finset.card_pos.2 ⟨_, h.target_mem hw⟩
  refine ⟨(h.tally.strong_bounds h.strong_lt).1, ?_, hlt⟩
  rw [h.tally.weak]
  omega

theorem takeSptr_granted (hlo : 0 ≤ s.refs.strong) {canPromote : Bool}
    (hveto : ¬ s.Vetoed canPromote) (w i : Nat) :
    s.takeSptr w i canPromote = s.takeSptr w i true := by
  unfold State.takeSptr State.wrcAttemptIncStrongRef
  rw [attempt_granted hlo hveto]

/-- An operation that is not vetoed is the operation with a `CanPromote` that grants. -/
theorem step_granted (h : Counts s used) {op : Op} (hveto : ¬ op.Vetoed s) :
    s.step op = s.step op.granted := by
  have hlo := (h.tally.strong_bounds h.strong_lt).1
  cases op with
  | promote w i canPromote =>
      show s.promote w i canPromote = s.promote w i true
      unfold State.promote
      rw [takeSptr_granted hlo hveto]
  | assignWptrToSptr w i canPromote =>
      show s.assignWptrToSptr w i canPromote = s.assignWptrToSptr w i true
      obtain ⟨used', hcounts⟩ : ∃ used', Counts (s.clearSptr i) used' := ⟨_, h.clearSptr.counts⟩
      have hlo' := (hcounts.tally.strong_bounds hcounts.strong_lt).1
      unfold State.assignWptrToSptr
      simp only
      split
      · split
        · -- `GetRefPtr` touches neither the strong count nor the lifetime
          have hget := State.getRefPtr_same (s.clearSptr i) ((s.clearSptr i).target w)
          have hext := State.getRefPtr_extended (s.clearSptr i) ((s.clearSptr i).target w)
          refine takeSptr_granted (by rw [hget.strong]; exact hlo') ?_ w i
          unfold State.Vetoed
          rw [hget.strong, hext]
          exact hveto
        · rfl
      · rfl
  | _ => rfl

theorem granted_fits {op : Op} (h : op.Fits s) : op.granted.Fits s := by
  cases op <;> exact h

/-- **A failed promotion changes nothing, unless it is vetoed.** In every state of a run without a
vetoed promotion, the counts survive a failed attempt exactly if it is not vetoed, and then the
whole state does: any number of such promotions leaves the object and its counter as they are. -/
theorem failed_promotion_keeps_counts (extended : Bool) {ops : List Op}
    (h : Along (fun s op => op.granted.Possible s ∧ op.Fits s ∧ ¬ op.Vetoed s) State.step
      (State.new extended) ops) :
    let s := (State.new extended).run ops
    ∀ w ∈ s.wptrs, s.refs.weak + 1 < 2 ^ 31 → ∀ canPromote,
      (((s.counterAttemptIncStrongRef canPromote).1 = false →
          SameCounts s (s.counterAttemptIncStrongRef canPromote).2.2) ↔ ¬ s.Vetoed canPromote) ∧
        ((s.counterAttemptIncStrongRef canPromote).1 = false → ¬ s.Vetoed canPromote →
          ∀ i, s.promote w i canPromote = s) := by
  obtain ⟨used, hcounts⟩ : ∃ used, Counts ((State.new extended).run ops) used := by
    refine Along.invariant (I := fun s => ∃ used, Counts s used) ?_ h ⟨_, counts_new extended⟩
    rintro s op ⟨hpossible, hfits, hveto⟩ ⟨used, hcounts⟩
    rw [step_granted hcounts hveto]
    exact ⟨_, (hcounts.step hpossible (granted_fits hfits)).counts⟩
  intro s w hw hlt canPromote
  have hheld : Held s := hcounts.held hw hlt
  refine ⟨attempt_keeps_iff hheld canPromote, fun hfail hveto i => ?_⟩
  have hback := attempt_failed hheld hveto hfail
  unfold State.promote State.takeSptr State.wrcAttemptIncStrongRef
  rw [if_pos hw]
  simp only [hfail, hback]

/-- The last `sptr` of an object goes while there is a `wptr`. -/
theorem failed_promotion_keeps_counts_expired :
    let ops : List Op := [.newSptr 0, .newWptr 0, .clearSptr 0, .promote 0 1 false]
    let s := (State.new false).run ops
    (s.counterAttemptIncStrongRef false).1 = false ∧
      SameCounts s (s.counterAttemptIncStrongRef false).2.2 := by
  intro ops s
  have h : Along (fun s op => op.granted.Possible s ∧ op.Fits s ∧ ¬ op.Vetoed s) State.step
      (State.new false) ops := by
    refine ⟨⟨⟨?_, rfl⟩, ⟨?_, ?_⟩, id⟩, ⟨⟨?_, rfl⟩, show (_ : Nat) < _ from ?_, id⟩,
      ⟨trivial, trivial, id⟩, ⟨⟨?_, rfl⟩, ⟨?_, ?_⟩, show ¬ State.Vetoed _ _ from ?_⟩, trivial⟩
    all_goals decide +kernel
  have hfail : (s.counterAttemptIncStrongRef false).1 = false := by decide +kernel
  have hall := failed_promotion_keeps_counts false h 0 (by decide +kernel) (by decide +kernel) false
  exact ⟨hfail, hall.1.2 (by decide +kernel) hfail⟩

/-- **A vetoed promotion keeps a weak reference.** The lifetime is extended, there is one `wptr`,
and `CanPromote` denies. -/
theorem vetoed_promotion_leaks :
    let s := (State.new true).run [.newWptr 0]
    ¬ ((s.counterAttemptIncStrongRef false).1 = false →
      SameCounts s (s.counterAttemptIncStrongRef false).2.2) := by
  intro s h
  have hweak := (h (by decide +kernel)).weak
  revert hweak
  decide +kernel

end CUtils.RefBases
