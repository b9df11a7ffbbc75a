import CUtils.RefBase.Bookkeeping

/-!
# Acquisition for IPC

`AttemptAcquire` and its short form `AttemptIncStrong` take a strong reference that belongs to no
`sptr`; an `sptr` is made then, and `CheckIsAttemptAcquireSet` gives the first reference back. The
short form raises the strong count whatever it is, so an object that has never had a strong reference
keeps the initial value in its count. On every other state the two are the same.
-/

namespace CUtils.RefBases

open StateRun

namespace State

/-- `RefCounter::AttemptIncStrong`. -/
def counterAttemptIncStrong (s : State) : Bool × State :=
  let s := s.incWeakRefCount
  let curCount := s.refs.strong
  if curCount > 0 then (true, s.setStrong (curCount + 1)) else (false, s.decWeakRefCount)

/-- `RefBase::AttemptIncStrong`. -/
def attemptIncStrong (s : State) : Bool × State :=
  match s.counterAttemptIncStrong with
  | (true, s) => (true, { s with refs := { s.refs with attempt := int32 (s.refs.attempt + 1) } })
  | (false, s) => (false, s)

/-- One of the two. -/
def attemptVia (s : State) (short : Bool) : Bool × State :=
  if short then s.attemptIncStrong else s.attemptAcquire true

/-- A whole acquisition: the attempt, the `sptr` `i`, and `CheckIsAttemptAcquireSet`. -/
def acquire (s : State) (short : Bool) (i : Nat) : State :=
  match s.attemptVia short with
  | (true, s) => (s.newSptr i).checkIsAttemptAcquireSet
  | (false, s) => s

/-! ## The two attempts -/

/-- **Away from the initial value** the short form is the same, for an object with a normal
lifetime. -/
theorem attemptIncStrong_eq {s : State} (hext : s.refs.extended = false)
    (hne : s.refs.strong ≠ initialPrimaryValue) (canPromote : Bool) :
    s.attemptIncStrong = s.attemptAcquire canPromote := by
  have hextWeak : s.incWeakRefCount.refs.extended = false := hext
  have hnot : ¬ (s.refs.strong = initialPrimaryValue ∧ (!s.incWeakRefCount.refs.extended) = true) :=
    fun h => hne h.1
  by_cases hpos : s.refs.strong > 0
  · have hshort : s.counterAttemptIncStrong =
        (true, s.incWeakRefCount.setStrong (s.refs.strong + 1)) := if_pos hpos
    have hcounter : s.counterAttemptIncStrongRef canPromote =
        (true, 0, s.incWeakRefCount.setStrong (s.refs.strong + 1)) := by
      rw [counterAttemptIncStrongRef, if_pos (.inl ⟨hpos, hne⟩), attemptSuccess, if_neg hne, if_neg]
      omega
    rw [attemptIncStrong, attemptAcquire, hshort, hcounter]
    simp only [if_neg zero_ne_initial]
  · have hshort : s.counterAttemptIncStrong = (false, s.incWeakRefCount.decWeakRefCount) :=
      if_neg hpos
    have hdead : s.refs.strong < 0 ∨ (!s.incWeakRefCount.refs.extended) = true ∧ s.refs.strong = 0 := by
      rw [hextWeak]
      by_cases hneg : s.refs.strong < 0
      · exact .inl hneg
      · exact .inr ⟨rfl, by omega⟩
    have hcounter : s.counterAttemptIncStrongRef canPromote =
        (false, 0, s.incWeakRefCount.decWeakRefCount) := by
      rw [counterAttemptIncStrongRef, if_neg (not_or.2 ⟨fun h => hpos h.1, hnot⟩),
        if_neg (by rw [hextWeak]; exact nofun), attemptSuccess, if_neg hne, if_pos hdead]
    rw [attemptIncStrong, attemptAcquire, hshort, hcounter]

/-- **At the initial value** one leaves it in the count and the other does not. -/
theorem attempt_initial {s : State} (hext : s.refs.extended = false)
    (hinit : s.refs.strong = initialPrimaryValue) (canPromote : Bool) :
    s.attemptIncStrong.2.refs.strong = initialPrimaryValue + 1 ∧
      (s.attemptAcquire canPromote).2.refs.strong = 1 := by
  have hpos : s.incWeakRefCount.refs.strong > 0 := by
    show s.refs.strong > 0
    rw [hinit]
    decide
  constructor
  · rw [attemptIncStrong, counterAttemptIncStrong]
    simp only [if_pos hpos]
    show int32 (s.refs.strong + 1) = _
    rw [hinit]
    decide
  · rw [attemptAcquire, counterAttemptIncStrongRef]
    have hextWeak : s.incWeakRefCount.refs.extended = false := hext
    have hgo : (s.refs.strong > 0 ∧ s.refs.strong ≠ initialPrimaryValue) ∨
        (s.refs.strong = initialPrimaryValue ∧ (!s.incWeakRefCount.refs.extended) = true) :=
      .inr ⟨hinit, by rw [hextWeak]; rfl⟩
    simp only [if_pos hgo, attemptSuccess, if_pos hinit]
    show int32 (int32 (s.refs.strong + 1) - initialPrimaryValue) = 1
    rw [hinit]
    decide

end State

/-! ## A whole acquisition -/

variable {s : State} {used : Bool}

/-- The strong count with one reference more. -/
theorem Tally.raised {n : Nat} {f : Nat → Nat} (h : Tally s n f used) (hn : n < 2 ^ 28) :
    (if s.refs.strong = initialPrimaryValue then 1 else s.refs.strong + 1) = ((n + 1 : Nat) : Int) := by
  have hiff := h.strong_eq_initial hn
  cases used with
  | false => rw [if_pos (hiff.2 rfl), h.unused rfl]; rfl
  | true =>
      rw [if_neg fun heq => absurd (hiff.1 heq) nofun, h.strong]
      simp

/-- An object with a normal lifetime is destroyed with its last strong reference. -/
theorem Tally.strong_pos {n : Nat} {f : Nat → Nat} (h : Tally s n f used)
    (hext : s.refs.extended = false) (halive : s.destroyed = 0) : 0 < s.refs.strong := by
  rw [h.strong]
  cases h.life with
  | alive _ _ _ _ _ hpos =>
      cases used with
      | false => exact (by decide : (0 : Int) < initialPrimaryValue)
      | true => simpa using hpos hext rfl
  | dead hd => omega
  | gone hd => omega

/-- The state with these counts, and these `sptr`s. -/
def State.counted (s : State) (strong weak attempt : Int) (sptrs : Finset Nat) (fired : Nat) : State :=
  { s with refs := { s.refs with strong, weak, attempt }, sptrs, fired }

theorem attemptAcquire_counted (h : Counts s used) (hext : s.refs.extended = false)
    (halive : s.destroyed = 0) (hattempt : s.refs.attempt = 0)
    (hm : s.sptrs.card + s.wrcs.card + 1 < 2 ^ 31) :
    ∃ fired, s.attemptAcquire true = (true,
      s.counted (s.sptrs.card + 1 : Nat) (s.refs.weak + 1) 1 s.sptrs fired) := by
  obtain ⟨hlo, hhi⟩ := h.tally.strong_bounds h.strong_lt
  obtain ⟨k, hcounter⟩ := counterAttempt_alive hlo hhi (.inl (h.tally.strong_pos hext halive))
  have hweak := h.tally.weak
  have hadd : int32 (s.refs.weak + 1) = s.refs.weak + 1 := int32_eq (by omega) (by omega)
  have hone : int32 (s.refs.attempt + 1) = 1 := by
    rw [hattempt]
    decide
  rw [h.tally.raised h.strong_lt, hadd] at hcounter
  rw [State.attemptAcquire, hcounter]
  simp only [hone]
  split
  · exact ⟨_, rfl⟩
  · exact ⟨_, rfl⟩

theorem newSptr_counted (s : State) {n : Nat} {weak attempt : Int} {sptrs : Finset Nat} {fired : Nat}
    (i : Nat) (hn : n < 2 ^ 28) (hweak : int32 (weak + 1) = weak + 1) :
    ∃ k, (s.counted n weak attempt sptrs fired).newSptr i =
      s.counted (n + 1 : Nat) (weak + 1) attempt (insert i sptrs) k := by
  have hne : (n : Int) ≠ initialPrimaryValue := by
    unfold initialPrimaryValue
    omega
  have hhi : (n : Int) ≤ initialPrimaryValue := by
    unfold initialPrimaryValue
    omega
  obtain ⟨k, hk⟩ := incStrongRef_eq (s := s.counted n weak attempt (insert i sptrs) fired)
    (Int.natCast_nonneg n) hhi
  refine ⟨k, hk.trans ?_⟩
  simp only [State.counted, hne, if_false, hweak]
  rfl

theorem checkIsAttemptAcquireSet_counted (s : State) {n : Nat} {k : Nat} {sptrs : Finset Nat}
    {fired : Nat} (hn : n + 1 < 2 ^ 28) (hk : k + 1 < 2 ^ 31) :
    (s.counted (n + 1 : Nat) (k + 2 : Nat) 1 sptrs fired).checkIsAttemptAcquireSet =
      s.counted n (k + 1 : Nat) 0 sptrs fired := by
  have hzero : int32 (1 - 1) = 0 := by decide
  have hset : (s.counted (n + 1 : Nat) (k + 2 : Nat) 1 sptrs fired).refs.attempt > 0 := Int.one_pos
  rw [State.checkIsAttemptAcquireSet, if_pos hset]
  have hdec := decStrongRefCount_eq
    (s := s.counted (n + 1 : Nat) (k + 2 : Nat) 0 sptrs fired) hn (by simp [State.counted])
  have hstate : { s.counted (n + 1 : Nat) (k + 2 : Nat) 1 sptrs fired with
      refs := { (s.counted (n + 1 : Nat) (k + 2 : Nat) 1 sptrs fired).refs with
        attempt := int32 (1 - 1) } } = s.counted (n + 1 : Nat) (k + 2 : Nat) 0 sptrs fired := by
    rw [hzero]
    rfl
  refine Eq.trans (congrArg (fun q : State => q.decStrongRefCount.2.decWeakRefCount) hstate) ?_
  show State.decWeakRefCount _ = _
  rw [hdec]
  refine (decWeakRefCount_more (k := k) ?_ hk).trans rfl
  simp [State.counted]

/-- **A whole acquisition** that starts away from the initial value, or with `AttemptAcquire`, does to
the counters what a new `sptr` does. -/
theorem Counts.acquire_eq (h : Counts s used) (hext : s.refs.extended = false)
    (halive : s.destroyed = 0) (hattempt : s.refs.attempt = 0) {short : Bool} (i : Nat)
    (hshort : short = true → s.refs.strong ≠ initialPrimaryValue)
    (hn : s.sptrs.card + 2 < 2 ^ 28) (hm : s.sptrs.card + s.wrcs.card + 2 < 2 ^ 31) :
    (s.attemptVia short).1 = true ∧ ∃ k, s.acquire short i = { s.newSptr i with fired := k } := by
  have hweak := h.tally.weak
  have hvia : s.attemptVia short = s.attemptAcquire true := by
    rw [State.attemptVia]
    cases short with
    | false => rfl
    | true => exact State.attemptIncStrong_eq hext (hshort rfl) true
  obtain ⟨fired, hacquire⟩ := attemptAcquire_counted h hext halive hattempt (by omega)
  -- both counts go up by two, and then down by one
  have hn₁ : s.sptrs.card + 1 < 2 ^ 28 := by omega
  obtain ⟨k, hnew⟩ : ∃ k, (s.counted (s.sptrs.card + 1 : Nat) (s.refs.weak + 1) 1 s.sptrs
      fired).newSptr i = s.counted (s.sptrs.card + 1 + 1 : Nat) (s.refs.weak + 1 + 1) 1
        (insert i s.sptrs) k := newSptr_counted s i hn₁ (int32_eq (by omega) (by omega))
  have hadd : s.refs.weak + 1 + 1 = ((s.sptrs.card + s.wrcs.card + 2 : Nat) : Int) := by omega
  refine ⟨by rw [hvia, hacquire], k, ?_⟩
  rw [State.acquire, hvia, hacquire]
  simp only
  rw [hnew, hadd, checkIsAttemptAcquireSet_counted s (by omega) (by omega)]
  -- a new `sptr` alone raises them by one
  obtain ⟨hlo, hhi⟩ := h.tally.strong_bounds h.strong_lt
  obtain ⟨k', hplain⟩ := incStrongRef_eq (s := { s with sptrs := insert i s.sptrs }) hlo hhi
  have hweak₁ : int32 (s.refs.weak + 1) = ((s.sptrs.card + s.wrcs.card + 1 : Nat) : Int) := by
    rw [int32_eq (by omega) (by omega)]
    omega
  have hraised := h.tally.raised h.strong_lt
  rw [State.newSptr, hplain]
  simp only [State.counted, hraised, hweak₁, hattempt]

/-! ## Smart pointers do not count attempts -/

namespace State

@[simp] theorem decRefCount_attempt (s : State) :
    s.decRefCount.refs.attempt = s.refs.attempt := by
  rw [decRefCount]
  split <;> rfl

@[simp] theorem callback_attempt (s : State) : s.callback.refs.attempt = s.refs.attempt := by
  rw [callback, destructor]
  split
  · simp only
    split
    · exact decRefCount_attempt _
    · rfl
  · rfl

@[simp] theorem decWeakRefCount_attempt (s : State) :
    s.decWeakRefCount.refs.attempt = s.refs.attempt := by
  have hset : (if s.refs.weak > 0 then s.setWeak (s.refs.weak - 1) else s).refs.attempt =
      s.refs.attempt := by split <;> rfl
  rw [decWeakRefCount]
  generalize (if s.refs.weak > 0 then s.setWeak (s.refs.weak - 1) else s) = q at hset ⊢
  split
  · exact hset
  · split
    · rw [callback_attempt, hset]
    · split
      · rw [callback_attempt, hset]
      · rw [decRefCount_attempt, hset]

@[simp] theorem incStrongRef_attempt (s : State) :
    s.incStrongRef.refs.attempt = s.refs.attempt := by
  rw [incStrongRef, incStrongRefCount]
  simp only
  split <;> split <;> rfl

@[simp] theorem decStrongRef_attempt (s : State) :
    s.decStrongRef.refs.attempt = s.refs.attempt := by
  have hdec : s.decStrongRefCount.2.refs.attempt = s.refs.attempt := by
    rw [decStrongRefCount]
    split
    · rfl
    · split <;> rfl
  rw [decStrongRef]
  simp only [decWeakRefCount_attempt]
  split
  · rw [callback_attempt, hdec]
  · exact hdec

@[simp] theorem attemptSuccess_attempt (s : State) (curCount : Int) :
    (s.attemptSuccess curCount).2.2.refs.attempt = s.refs.attempt := by
  rw [attemptSuccess]
  split
  · rfl
  · split
    · exact decWeakRefCount_attempt s
    · rfl

@[simp] theorem counterAttemptIncStrongRef_attempt (s : State) (canPromote : Bool) :
    (s.counterAttemptIncStrongRef canPromote).2.2.refs.attempt = s.refs.attempt := by
  rw [counterAttemptIncStrongRef]
  split
  · exact attemptSuccess_attempt _ _
  · split
    · split
      · rfl
      · exact attemptSuccess_attempt _ _
    · exact attemptSuccess_attempt _ _

@[simp] theorem wrcIncWeakRefCount_attempt (s : State) (w : Nat) :
    (s.wrcIncWeakRefCount w).refs.attempt = s.refs.attempt := by
  rw [wrcIncWeakRefCount]
  simp only
  split <;> rfl

@[simp] theorem wrcDecWeakRefCount_attempt (s : State) (w : Nat) :
    (s.wrcDecWeakRefCount w).refs.attempt = s.refs.attempt := by
  rw [wrcDecWeakRefCount]
  simp only
  split
  · rw [decRefCount_attempt]
    exact decWeakRefCount_attempt _
  · rfl

@[simp] theorem getRefPtr_attempt (s : State) (w : Nat) :
    (s.getRefPtr w).2.refs.attempt = s.refs.attempt := by
  rw [getRefPtr]
  simp only
  split <;> rfl

@[simp] theorem createWeakRef_attempt (s : State) :
    s.createWeakRef.refs.attempt = s.refs.attempt := rfl

@[simp] theorem newSptr_attempt (s : State) (i : Nat) :
    (s.newSptr i).refs.attempt = s.refs.attempt := incStrongRef_attempt _

@[simp] theorem clearSptr_attempt (s : State) (i : Nat) :
    (s.clearSptr i).refs.attempt = s.refs.attempt := by
  rw [clearSptr]
  split
  · exact decStrongRef_attempt s
  · rfl

@[simp] theorem takeSptr_attempt (s : State) (w i : Nat) (canPromote : Bool) :
    (s.takeSptr w i canPromote).refs.attempt = s.refs.attempt := by
  have hattempt : (s.wrcAttemptIncStrongRef canPromote).2.refs.attempt = s.refs.attempt :=
    counterAttemptIncStrongRef_attempt s canPromote
  rw [takeSptr]
  rcases hrun : s.wrcAttemptIncStrongRef canPromote with ⟨ok, q⟩
  rw [hrun] at hattempt
  cases ok with
  | false => exact hattempt
  | true =>
      simp only
      split <;> exact (getRefPtr_attempt q _).trans hattempt

@[simp] theorem dropWptr_attempt (s : State) (i : Nat) :
    (s.dropWptr i).refs.attempt = s.refs.attempt := by
  rw [dropWptr]
  split
  · exact wrcDecWeakRefCount_attempt s _
  · rfl

/-- The last part of an assignment to a `wptr`. -/
theorem dropTarget_attempt (s : State) (j : Nat) :
    (if j ∈ s.wptrs then s.wrcDecWeakRefCount (s.target j) else s).refs.attempt = s.refs.attempt := by
  split
  · exact wrcDecWeakRefCount_attempt s _
  · rfl

theorem step_attempt {s : State} {op : Op} (h : op.Possible s) :
    (s.step op).refs.attempt = s.refs.attempt := by
  cases op with
  | newSptr i => exact newSptr_attempt s i
  | copySptr i j =>
      rw [step, copySptr]
      split
      · exact newSptr_attempt s j
      · rfl
  | moveSptr i j =>
      rw [step, moveSptr]
      split <;> rfl
  | clearSptr i => exact clearSptr_attempt s i
  | assignSptr i j =>
      rw [step, assignSptr]
      split
      · simp only
        split
        · exact (decStrongRef_attempt _).trans (incStrongRef_attempt s)
        · exact incStrongRef_attempt s
      · exact clearSptr_attempt s j
  | promote w i canPromote =>
      rw [step, promote]
      split
      · exact takeSptr_attempt s w i canPromote
      · rfl
  | assignWptrToSptr w i canPromote =>
      rw [step, assignWptrToSptr]
      simp only
      split
      · split
        · rw [takeSptr_attempt, getRefPtr_attempt, clearSptr_attempt]
        · rw [getRefPtr_attempt, clearSptr_attempt]
      · exact clearSptr_attempt s i
  | newWptr i => exact wrcIncWeakRefCount_attempt _ _
  | copyWptr i j =>
      rw [step, copyWptr]
      split
      · exact wrcIncWeakRefCount_attempt s _
      · rfl
  | dropWptr i => exact dropWptr_attempt s i
  | assignWptr i j =>
      rw [step, assignWptr]
      split
      · exact (dropTarget_attempt _ j).trans (wrcIncWeakRefCount_attempt s _)
      · exact dropWptr_attempt s j
  | assignSptrToWptr j =>
      exact (dropTarget_attempt _ j).trans (wrcIncWeakRefCount_attempt s.createWeakRef _)
  | attemptAcquire canPromote => exact h.elim
  | attemptIncStrongRef promoted canPromote => exact h.elim
  | checkIsAttemptAcquireSet => exact h.elim
  | decStrongRef => exact h.elim

end State

/-! ## Runs -/

/-- A turn of a program: an operation on a smart pointer, or a whole acquisition. -/
inductive Turn
  | op (smart : Op)
  | acquire (short : Bool) (i : Nat)

def State.turn (s : State) : Turn → State
  | .op smart => s.step smart
  | .acquire short i => s.acquire short i

/-- The attempt is a call to the object, which is there then. -/
def Turn.Possible (s : State) : Turn → Prop
  | .op smart => smart.Possible s
  | .acquire _ i => i ∉ s.sptrs ∧ s.destroyed = 0

/-- For a moment an acquisition has two references. -/
def Turn.Fits (s : State) : Turn → Prop
  | .op smart => smart.Fits s
  | .acquire _ _ => s.sptrs.card + 2 < 2 ^ 28 ∧ s.sptrs.card + s.wrcs.card + 2 < 2 ^ 31

/-- The short form is not used before there has been a strong reference. -/
def Turn.Started (s : State) : Turn → Prop
  | .acquire true _ => s.refs.strong ≠ initialPrimaryValue
  | _ => True

/-- Between two turns: the counts are those of the pointers, and no attempt is open. -/
structure Idle (s : State) (used : Bool) : Prop where
  counts : Counts s used
  extended : s.refs.extended = false
  attempt : s.refs.attempt = 0

theorem State.newSptr_sptrs (s : State) (i : Nat) : (s.newSptr i).sptrs = insert i s.sptrs := by
  rw [newSptr, incStrongRef, incStrongRefCount]
  simp only
  split <;> split <;> rfl

/-- What a new `sptr` leaves, whoever has been told of it. -/
theorem Counts.withFired (h : Counts s used) (k : Nat) : Counts { s with fired := k } used :=
  ⟨h.tally.withPointers rfl rfl rfl rfl rfl rfl rfl, h.strong_lt, h.weak_lt, h.wrc_lt⟩

theorem Idle.acquire (h : Idle s used) (halive : s.destroyed = 0) {short : Bool} {i : Nat}
    (hi : i ∉ s.sptrs) (hshort : short = true → s.refs.strong ≠ initialPrimaryValue)
    (hn : s.sptrs.card + 2 < 2 ^ 28) (hm : s.sptrs.card + s.wrcs.card + 2 < 2 ^ 31) :
    Idle (s.acquire short i) true := by
  obtain ⟨-, k, hacquire⟩ := h.counts.acquire_eq h.extended halive h.attempt i hshort hn hm
  have hout := h.counts.newSptr halive hi (by omega) (by omega)
  have hcounts : Counts (s.newSptr i) true := by
    have hsome : (s.newSptr i).sptrs.Nonempty := by
      rw [State.newSptr_sptrs]
      exact ⟨i, Finset.mem_insert_self _ _⟩
    have hflag := hout.counts
    rwa [decide_eq_true hsome, Bool.or_true] at hflag
  rw [hacquire]
  exact ⟨hcounts.withFired k, hout.extended.trans h.extended,
    (State.newSptr_attempt s i).trans h.attempt⟩

/-- **A turn that is started keeps the counts.** -/
theorem Idle.turn (h : Idle s used) {t : Turn} (hpossible : t.Possible s) (hfits : t.Fits s)
    (hstarted : t.Started s) : ∃ used, Idle (s.turn t) used := by
  cases t with
  | op smart =>
      have hout := h.counts.step hpossible hfits
      exact ⟨_, hout.counts, hout.extended.trans h.extended,
        (State.step_attempt hpossible).trans h.attempt⟩
  | acquire short i =>
      refine ⟨true, h.acquire hpossible.2 hpossible.1 ?_ hfits.1 hfits.2⟩
      rintro rfl
      exact hstarted

/-- The strong count is the number of `sptr`s, and the release of the last one destroys the object. -/
structure Settled (s : State) : Prop where
  strong : s.refs.strong = s.sptrs.card
  release : ∀ i, s.sptrs = {i} → s.destroyed = 0 ∧ (s.clearSptr i).destroyed = 1

theorem Idle.settled (h : Idle s used) (hsome : s.sptrs.Nonempty) : Settled s := by
  obtain ⟨halive, rfl⟩ := h.counts.alive_of_sptr hsome
  refine ⟨by rw [h.counts.tally.strong, if_pos rfl], fun i hlast => ⟨halive, ?_⟩⟩
  have hmem : i ∈ s.sptrs := hlast ▸ Finset.mem_singleton_self i
  have hout : Outcome s (s.clearSptr i) true := h.counts.clearSptr
  have hnone : (s.clearSptr i).sptrs = ∅ := by
    rw [State.clearSptr, if_pos hmem]
    show s.decStrongRef.sptrs.erase i = ∅
    rw [(State.decStrongRef_frame s).sptrs, hlast, Finset.erase_singleton]
  have hdrops : DropsLast (true = true) s (s.clearSptr i) := by
    rw [DropsLast, h.extended]
    exact .inl ⟨hsome, hnone⟩
  rw [hout.drops hdrops, halive]

/-- The two attempts give the same result and leave the same counts. -/
structure SameAttempt (s : State) (canPromote : Bool) : Prop where
  result : s.attemptIncStrong.1 = (s.attemptAcquire canPromote).1
  strong : s.attemptIncStrong.2.refs.strong = (s.attemptAcquire canPromote).2.refs.strong
  weak : s.attemptIncStrong.2.refs.weak = (s.attemptAcquire canPromote).2.refs.weak
  refCount : s.attemptIncStrong.2.refs.refCount = (s.attemptAcquire canPromote).2.refs.refCount
  attempt : s.attemptIncStrong.2.refs.attempt = (s.attemptAcquire canPromote).2.refs.attempt

/-- The two paths agree, and either one is settled once the `sptr` is there. -/
def PathsAgree (s : State) : Prop :=
  (∀ canPromote, SameAttempt s canPromote) ∧
    ∀ short i, i ∉ s.sptrs → Turn.Fits s (.acquire short i) → (s.attemptVia short).1 = true →
      Settled (s.acquire short i)

/-- **The attempts agree exactly away from the initial value**, in every state of an object with a
normal lifetime. -/
theorem sameAttempt_iff (hext : s.refs.extended = false) (canPromote : Bool) :
    SameAttempt s canPromote ↔ s.refs.strong ≠ initialPrimaryValue := by
  constructor
  · intro h hinit
    obtain ⟨hshort, hlong⟩ := State.attempt_initial hext hinit canPromote
    have hstrong := h.strong
    rw [hshort, hlong] at hstrong
    exact absurd hstrong (by decide)
  · intro hne
    have heq := State.attemptIncStrong_eq hext hne canPromote
    exact ⟨by rw [heq], by rw [heq], by rw [heq], by rw [heq], by rw [heq]⟩

/-- An attempt that succeeds finds the object alive. -/
theorem Idle.alive (h : Idle s used) {short : Bool} (hne : s.refs.strong ≠ initialPrimaryValue)
    (hsuccess : (s.attemptVia short).1 = true) : s.destroyed = 0 := by
  by_contra hdead
  have hzero : s.refs.strong = 0 := by
    have hiff := h.counts.tally.strong_eq_initial h.counts.strong_lt
    rw [h.counts.tally.strong]
    cases h.counts.tally.life with
    | alive hd => exact absurd hd hdead
    | dead _ _ _ _ _ hu hn => rw [hu, hn]; rfl
    | gone _ _ hn =>
        cases used with
        | false => exact absurd (hiff.2 rfl) hne
        | true => rw [hn]; rfl
  have hshort : s.attemptIncStrong.1 = false := by
    have hcounter : s.counterAttemptIncStrong = (false, s.incWeakRefCount.decWeakRefCount) :=
      if_neg (show ¬ s.refs.strong > 0 by omega)
    rw [State.attemptIncStrong, hcounter]
  rw [State.attemptVia, ← State.attemptIncStrong_eq h.extended hne true, ite_self, hshort] at hsuccess
  cases hsuccess

/-- **The two acquisition paths.** The attempts agree exactly in the states away from the initial
value. In every run that uses the short form only there, the paths agree in exactly those states, and
as long as there is an `sptr` the strong count is the number of `sptr`s and the release of the last
one destroys the object. -/
theorem acquisition_paths_agree (turns : List Turn)
    (h : Along (fun s t => t.Possible s ∧ t.Fits s ∧ t.Started s) State.turn (State.new false)
      turns) :
    (∀ s : State, s.refs.extended = false → ∀ canPromote,
      SameAttempt s canPromote ↔ s.refs.strong ≠ initialPrimaryValue) ∧
      let s := turns.foldl State.turn (State.new false)
      (PathsAgree s ↔ s.refs.strong ≠ initialPrimaryValue) ∧ (s.sptrs.Nonempty → Settled s) := by
  refine ⟨fun s hext canPromote => sameAttempt_iff hext canPromote, ?_⟩
  obtain ⟨used, hidle⟩ : ∃ used, Idle (turns.foldl State.turn (State.new false)) used := by
    refine Along.invariant (I := fun s => ∃ used, Idle s used) ?_ h
      ⟨false, counts_new false, rfl, rfl⟩
    rintro s t ⟨hpossible, hfits, hstarted⟩ ⟨used, hidle⟩
    exact hidle.turn hpossible hfits hstarted
  intro s
  refine ⟨⟨fun hagree => (sameAttempt_iff hidle.extended true).1 (hagree.1 true), fun hne => ?_⟩,
    hidle.settled⟩
  refine ⟨fun canPromote => (sameAttempt_iff hidle.extended canPromote).2 hne,
    fun short i hi hfits hsuccess => ?_⟩
  have halive := hidle.alive hne hsuccess
  have hafter : Idle (s.acquire short i) true :=
    hidle.acquire halive hi (fun _ => hne) hfits.1 hfits.2
  refine hafter.settled ?_
  obtain ⟨-, k, heq⟩ : _ ∧ ∃ k, s.acquire short i = { s.newSptr i with fired := k } :=
    hidle.counts.acquire_eq hidle.extended halive hidle.attempt i (fun _ => hne) hfits.1 hfits.2
  rw [heq]
  show (State.newSptr _ i).sptrs.Nonempty
  rw [State.newSptr_sptrs]
  exact ⟨i, Finset.mem_insert_self _ _⟩

/-- A second `sptr` by way of the short form; then the first one is released. -/
theorem acquisition_paths_agree_second :
    let turns : List Turn := [.op (.newSptr 0), .acquire true 1, .op (.clearSptr 0)]
    let s := turns.foldl State.turn (State.new false)
    PathsAgree s ∧ Settled s := by
  intro turns s
  have h : Along (fun s t => t.Possible s ∧ t.Fits s ∧ t.Started s) State.turn (State.new false)
      turns := by
    refine ⟨⟨⟨?_, rfl⟩, ⟨?_, ?_⟩, trivial⟩, ⟨⟨?_, rfl⟩, ⟨?_, ?_⟩, show (_ : Int) ≠ _ from ?_⟩,
      ⟨trivial, trivial, trivial⟩, trivial⟩
    all_goals decide +kernel
  obtain ⟨-, hagree, hsettled⟩ := acquisition_paths_agree turns h
  exact ⟨hagree.2 (by decide +kernel), hsettled (by decide +kernel)⟩

/-- **An object that has never had a strong reference.** With a `wptr` there, the short form leaves
the initial value in the count, and the object outlives the last `sptr`. -/
theorem short_form_leaks :
    let s := (State.new false).run [.newWptr 0]
    s.attemptIncStrong.2.refs.strong = initialPrimaryValue + 1 ∧
      (s.attemptAcquire true).2.refs.strong = 1 ∧
      (s.acquire true 0).refs.strong = initialPrimaryValue + 1 ∧
      ((s.acquire true 0).clearSptr 0).destroyed = 0 ∧
      ((s.acquire false 0).clearSptr 0).destroyed = 1 := by
  decide +kernel

end CUtils.RefBases
