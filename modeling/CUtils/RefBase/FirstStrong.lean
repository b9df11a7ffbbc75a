import CUtils.RefBase.Effects
import CUtils.Lib.StateRun

/-!
# The first strong reference

The strong count is the initial value until a strong reference is taken (`Untaken`), and from then
on below it (`Taken`), as long as there are fewer than `INITIAL_PRIMARY_VALUE` references. The
functions that take a reference return the old count, and their callers in `RefBase` call
`OnFirstStrongRef` for the initial value. `WeakRefCounter::AttemptIncStrongRef` drops it, so a first
reference that is taken through a `wptr` is not told (`Op.Told`).
-/

namespace CUtils.RefBases

open StateRun

structure Untaken (s : State) : Prop where
  strong : s.refs.strong = initialPrimaryValue
  fired : s.fired = 0

structure Taken (s : State) : Prop where
  nonneg : 0 ≤ s.refs.strong
  lt : s.refs.strong < initialPrimaryValue
  fired : s.fired = 1

theorem Untaken.same {s s' : State} (h : Untaken s) (hs : Same s s') : Untaken s' :=
  ⟨hs.strong.trans h.strong, hs.fired.trans h.fired⟩

theorem Taken.same {s s' : State} (h : Taken s) (hs : Same s s') : Taken s' where
  nonneg := by rw [hs.strong]; exact h.nonneg
  lt := by rw [hs.strong]; exact h.lt
  fired := hs.fired.trans h.fired

/-! ## Taking and releasing -/

theorem Taken.acquired {s s' : State} (h : Taken s) (hroom : s.refs.strong + 1 ≠ initialPrimaryValue)
    (ha : Acquired s s') : Taken s' := by
  have hlt := h.lt
  have hnonneg := h.nonneg
  have hstrong := ha.strong
  rw [if_neg hlt.ne] at hstrong
  exact ⟨by omega, by omega, ha.fired.trans h.fired⟩

/-- The first reference, if it is told. -/
theorem Untaken.acquired {s s' : State} (h : Untaken s) (ha : Acquired s s') :
    Taken s'.onFirstStrongRef := by
  have hstrong := ha.strong
  rw [if_pos h.strong] at hstrong
  refine ⟨?_, ?_, ?_⟩
  · show 0 ≤ s'.refs.strong
    rw [hstrong]
    decide
  · show s'.refs.strong < initialPrimaryValue
    rw [hstrong]
    decide
  · show s'.fired + 1 = 1
    rw [ha.fired, h.fired]

theorem decStrongRefCount_untaken {s : State} (h : Untaken s) : s.decStrongRefCount.2 = s := by
  rw [State.decStrongRefCount]
  simp only [if_pos h.strong]

theorem Taken.decStrongRefCount {s : State} (h : Taken s) :
    Taken s.decStrongRefCount.2 ∧ s.decStrongRefCount.2.refs.strong ≤ s.refs.strong := by
  have hnonneg := h.nonneg
  have hlt := h.lt
  unfold State.decStrongRefCount
  simp only
  rw [if_neg hlt.ne]
  split
  · have heq : int32 (s.refs.strong - 1) = s.refs.strong - 1 := by
      unfold initialPrimaryValue at hlt
      exact int32_eq (by omega) (by omega)
    refine ⟨⟨?_, ?_, h.fired⟩, ?_⟩
    · show 0 ≤ int32 (s.refs.strong - 1)
      omega
    · show int32 (s.refs.strong - 1) < initialPrimaryValue
      omega
    · show int32 (s.refs.strong - 1) ≤ s.refs.strong
      omega
  · exact ⟨h, le_rfl⟩

theorem Untaken.decStrongRef {s : State} (h : Untaken s) : Untaken s.decStrongRef := by
  have htail := decStrongRef_tail s
  rw [decStrongRefCount_untaken h] at htail
  exact h.same htail

theorem Taken.decStrongRef {s : State} (h : Taken s) : Taken s.decStrongRef :=
  h.decStrongRefCount.1.same (decStrongRef_tail s)

/-! ## Every operation -/

/-- The count has not left the initial value, or it has, and this has been told. -/
def Known (s : State) : Prop := Untaken s ∨ Taken s

theorem Known.same {s s' : State} (h : Known s) (hs : Same s s') : Known s' :=
  h.imp (fun hu => hu.same hs) fun ht => ht.same hs

theorem Known.nonneg {s : State} (h : Known s) : 0 ≤ s.refs.strong := by
  rcases h with hu | ht
  · rw [hu.strong]
    decide
  · exact ht.nonneg

theorem Known.le {s : State} (h : Known s) : s.refs.strong ≤ initialPrimaryValue := by
  rcases h with hu | ht
  · exact hu.strong.le
  · exact ht.lt.le

/-- A reference is taken by a function that tells the first one. -/
theorem Known.told {s s' : State} (h : Known s) (hroom : s.refs.strong + 1 ≠ initialPrimaryValue)
    (ha : Acquired s s') {count : Int}
    (hcount : count = initialPrimaryValue ↔ s.refs.strong = initialPrimaryValue) :
    Taken (if count = initialPrimaryValue then s'.onFirstStrongRef else s') := by
  rcases h with hu | ht
  · rw [if_pos (hcount.2 hu.strong)]
    exact hu.acquired ha
  · rw [if_neg fun hc => ht.lt.ne (hcount.1 hc)]
    exact ht.acquired hroom ha

theorem Known.incStrongRef {s : State} (h : Known s)
    (hroom : s.refs.strong + 1 ≠ initialPrimaryValue) : Taken s.incStrongRef := by
  have hweak : Known s.incWeakRefCount := h.same ⟨rfl, rfl⟩
  obtain ⟨hcount, ha⟩ := incStrongRefCount_acquired hweak.nonneg hweak.le
  exact hweak.told hroom ha (by rw [hcount])

theorem Known.newSptr {s : State} (h : Known s) (hroom : s.refs.strong + 1 ≠ initialPrimaryValue)
    (i : Nat) : Known (s.newSptr i) := by
  have hinsert : Known { s with sptrs := insert i s.sptrs } := h.same ⟨rfl, rfl⟩
  exact Or.inr (hinsert.incStrongRef hroom)

theorem Known.attempt {s : State} (h : Known s) (hroom : s.refs.strong + 1 ≠ initialPrimaryValue)
    (canPromote : Bool) :
    Known (if (s.counterAttemptIncStrongRef canPromote).2.1 = initialPrimaryValue then
      (s.counterAttemptIncStrongRef canPromote).2.2.onFirstStrongRef
      else (s.counterAttemptIncStrongRef canPromote).2.2) := by
  rcases counterAttemptIncStrongRef_cases h.nonneg h.le canPromote with ⟨hout, hsame⟩ |
    ⟨-, hout, ha⟩
  · rw [if_neg hout]
    exact h.same hsame
  · exact Or.inr (h.told hroom ha hout)

theorem Known.decStrongRef {s : State} (h : Known s) : Known s.decStrongRef :=
  h.imp (fun hu => hu.decStrongRef) fun ht => ht.decStrongRef

theorem Known.clearSptr {s : State} (h : Known s) (i : Nat) : Known (s.clearSptr i) := by
  unfold State.clearSptr
  split
  · exact h.decStrongRef.same ⟨rfl, rfl⟩
  · exact h

/-- A `wptr` is promoted when there has been a strong reference, or when that is not granted. -/
theorem Known.takeSptr {s : State} (h : Known s) (hroom : s.refs.strong + 1 ≠ initialPrimaryValue)
    (w i : Nat) {canPromote : Bool} (htold : s.refs.strong = initialPrimaryValue →
      s.refs.extended = true ∧ canPromote = false) : Known (s.takeSptr w i canPromote) := by
  have hattempt : Known (s.wrcAttemptIncStrongRef canPromote).2 := by
    rcases counterAttemptIncStrongRef_cases h.nonneg h.le canPromote with ⟨-, hsame⟩ | ⟨hno, -, ha⟩
    · exact h.same hsame
    · rcases h with hu | ht
      · exact absurd ⟨hu.strong, htold hu.strong⟩ hno
      · exact Or.inr (ht.acquired hroom ha)
  unfold State.takeSptr
  rcases hrun : s.wrcAttemptIncStrongRef canPromote with ⟨ok, q⟩
  rw [hrun] at hattempt
  cases ok with
  | false => exact hattempt
  | true =>
      have hget := hattempt.same (State.getRefPtr_same q (q.target w))
      simp only
      split
      · exact hget.same ⟨rfl, rfl⟩
      · exact hget

/-- The operations after which a first reference is told. Through a `wptr` it is not: there has to
have been one, or `CanPromote` denies it. No operation takes the last reference below the initial
value. -/
def Op.Told (s : State) : Op → Prop
  | .newSptr _ | .copySptr _ _ | .assignSptr _ _ | .attemptAcquire _ | .attemptIncStrongRef _ _ =>
      s.refs.strong + 1 ≠ initialPrimaryValue
  | .promote w _ canPromote | .assignWptrToSptr w _ canPromote =>
      s.refs.strong + 1 ≠ initialPrimaryValue ∧
        (w ∈ s.wptrs → s.refs.strong = initialPrimaryValue →
          s.refs.extended = true ∧ canPromote = false)
  | _ => True

/-- Releasing a reference leaves room for another one. -/
theorem clearSptr_room {s : State} (h : Known s) (hroom : s.refs.strong + 1 ≠ initialPrimaryValue)
    (i : Nat) : (s.clearSptr i).refs.strong + 1 ≠ initialPrimaryValue ∧
      ((s.clearSptr i).refs.strong = initialPrimaryValue → s.refs.strong = initialPrimaryValue) := by
  unfold State.clearSptr
  split
  · have htail := (decStrongRef_tail s).strong
    show s.decStrongRef.refs.strong + 1 ≠ initialPrimaryValue ∧
      (s.decStrongRef.refs.strong = initialPrimaryValue → _)
    rw [htail]
    rcases h with hu | ht
    · rw [decStrongRefCount_untaken hu]
      exact ⟨hroom, id⟩
    · have hle := ht.decStrongRefCount.2
      have hlt := ht.lt
      exact ⟨by omega, fun hinit => by omega⟩
  · exact ⟨hroom, id⟩

theorem clearSptr_frame (s : State) (i : Nat) :
    (s.clearSptr i).wptrs = s.wptrs ∧ (s.clearSptr i).refs.extended = s.refs.extended := by
  unfold State.clearSptr
  split
  · exact ⟨(State.decStrongRef_frame s).wptrs, (State.decStrongRef_frame s).extended⟩
  · exact ⟨rfl, rfl⟩

theorem Known.assignSptr {s : State} (h : Known s)
    (hroom : s.refs.strong + 1 ≠ initialPrimaryValue) (i j : Nat) : Known (s.assignSptr i j) := by
  unfold State.assignSptr
  split
  · have hinc : Known s.incStrongRef := Or.inr (h.incStrongRef hroom)
    simp only
    split
    · exact hinc.decStrongRef.same ⟨rfl, rfl⟩
    · exact hinc.same ⟨rfl, rfl⟩
  · exact h.clearSptr j

theorem Known.assignWptrToSptr {s : State} (h : Known s) {w i : Nat} {canPromote : Bool}
    (htold : Op.Told s (.assignWptrToSptr w i canPromote)) :
    Known (s.assignWptrToSptr w i canPromote) := by
  have hclear := h.clearSptr i
  obtain ⟨hroom, hinit⟩ := clearSptr_room h htold.1 i
  obtain ⟨hwptrs, hextended⟩ := clearSptr_frame s i
  unfold State.assignWptrToSptr
  simp only
  set q := s.clearSptr i
  split
  · rename_i hw
    have hget := State.getRefPtr_same q (q.target w)
    split
    · refine (hclear.same hget).takeSptr (by rw [hget.strong]; exact hroom) w i fun hstrong => ?_
      rw [hget.strong] at hstrong
      have hno := htold.2 (hwptrs ▸ hw) (hinit hstrong)
      refine ⟨?_, hno.2⟩
      show (q.getRefPtr (q.target w)).2.refs.extended = true
      rw [State.getRefPtr_extended, hextended]
      exact hno.1
    · exact hclear.same hget
  · exact hclear

theorem Known.checkIsAttemptAcquireSet {s : State} (h : Known s) :
    Known s.checkIsAttemptAcquireSet := by
  unfold State.checkIsAttemptAcquireSet
  split
  · refine Known.same ?_ (State.decWeakRefCount_same _)
    set q : State := { s with refs := { s.refs with attempt := int32 (s.refs.attempt - 1) } }
    rcases h with hu | ht
    · have hq : Untaken q := hu.same ⟨rfl, rfl⟩
      rw [decStrongRefCount_untaken hq]
      exact Or.inl hq
    · have hq : Taken q := ht.same ⟨rfl, rfl⟩
      exact Or.inr hq.decStrongRefCount.1
  · exact h

theorem Known.attemptAcquire {s : State} (h : Known s)
    (hroom : s.refs.strong + 1 ≠ initialPrimaryValue) (canPromote : Bool) :
    Known (s.attemptAcquire canPromote).2 := by
  have hattempt := h.attempt hroom canPromote
  unfold State.attemptAcquire
  rcases hrun : s.counterAttemptIncStrongRef canPromote with ⟨ok, count, q⟩
  have hfail := counterAttemptIncStrongRef_false s canPromote
  rw [hrun] at hattempt hfail
  simp only at hattempt hfail ⊢
  cases ok with
  | true =>
      by_cases hcount : count = initialPrimaryValue
      · rw [if_pos hcount] at hattempt
        simp only [if_pos hcount]
        exact hattempt.same ⟨rfl, rfl⟩
      · rw [if_neg hcount] at hattempt
        simp only [if_neg hcount]
        exact hattempt.same ⟨rfl, rfl⟩
  | false =>
      rw [if_neg (hfail rfl)] at hattempt
      exact hattempt

/-- **Every operation keeps the first reference known.** -/
theorem Known.step {s : State} (h : Known s) {op : Op} (htold : op.Told s) : Known (s.step op) := by
  cases op with
  | newSptr i => exact h.newSptr htold i
  | copySptr i j =>
      rw [State.step, State.copySptr]
      split
      · exact h.newSptr htold j
      · exact h
  | moveSptr i j =>
      rw [State.step, State.moveSptr]
      split
      · exact h.same ⟨rfl, rfl⟩
      · exact h
  | clearSptr i => exact h.clearSptr i
  | assignSptr i j => exact h.assignSptr htold i j
  | promote w i canPromote =>
      rw [State.step, State.promote]
      split
      · exact h.takeSptr htold.1 w i (htold.2 ‹_›)
      · exact h
  | assignWptrToSptr w i canPromote => exact h.assignWptrToSptr htold
  | newWptr i =>
      have hinc := (State.createWeakRef_same s).trans (State.wrcIncWeakRefCount_same _ s.next)
      exact h.same (hinc.trans ⟨rfl, rfl⟩)
  | copyWptr i j =>
      rw [State.step, State.copyWptr]
      split
      · exact h.same (Same.trans (State.wrcIncWeakRefCount_same s _) ⟨rfl, rfl⟩)
      · exact h
  | dropWptr i => exact h.same (State.dropWptr_same s i)
  | assignWptr i j =>
      rw [State.step, State.assignWptr]
      split
      · have hdrop := State.dropTarget_same (s.wrcIncWeakRefCount (s.target i)) j
        exact h.same (((State.wrcIncWeakRefCount_same s _).trans hdrop).trans ⟨rfl, rfl⟩)
      · exact h.same (State.dropWptr_same s j)
  | assignSptrToWptr j =>
      have hdrop := State.dropTarget_same (s.createWeakRef.wrcIncWeakRefCount s.next) j
      have hinc := (State.createWeakRef_same s).trans (State.wrcIncWeakRefCount_same _ s.next)
      exact h.same ((hinc.trans hdrop).trans ⟨rfl, rfl⟩)
  | attemptAcquire canPromote => exact h.attemptAcquire htold canPromote
  | attemptIncStrongRef promoted canPromote =>
      rw [State.step, State.attemptIncStrongRef]
      split
      · exact h.attempt htold canPromote
      · exact h
  | checkIsAttemptAcquireSet => exact h.checkIsAttemptAcquireSet
  | decStrongRef => exact h.decStrongRef

/-! ## What has been told stays told -/

theorem incStrongRef_fired (s : State) : s.fired ≤ s.incStrongRef.fired := by
  have hinc : s.incWeakRefCount.incStrongRefCount.2.fired = s.fired := by
    unfold State.incStrongRefCount
    simp only
    split
    · split <;> rfl
    · rfl
  unfold State.incStrongRef
  simp only
  split
  · exact hinc.symm.le.trans (Nat.le_succ _)
  · exact hinc.symm.le

theorem decStrongRef_fired (s : State) : s.decStrongRef.fired = s.fired := by
  rw [(decStrongRef_tail s).fired]
  unfold State.decStrongRefCount
  simp only
  split
  · rfl
  · split <;> rfl

theorem attemptSuccess_fired (s : State) (curCount : Int) :
    (s.attemptSuccess curCount).2.2.fired = s.fired := by
  unfold State.attemptSuccess
  split
  · rfl
  · split
    · exact (State.decWeakRefCount_same s).fired
    · rfl

theorem counterAttemptIncStrongRef_fired (s : State) (canPromote : Bool) :
    (s.counterAttemptIncStrongRef canPromote).2.2.fired = s.fired := by
  unfold State.counterAttemptIncStrongRef
  simp only
  split
  · exact attemptSuccess_fired _ _
  · split
    · split
      · rfl
      · exact attemptSuccess_fired _ _
    · exact attemptSuccess_fired _ _

theorem clearSptr_fired (s : State) (i : Nat) : (s.clearSptr i).fired = s.fired := by
  unfold State.clearSptr
  split
  · exact decStrongRef_fired s
  · rfl

theorem takeSptr_fired (s : State) (w i : Nat) (canPromote : Bool) :
    (s.takeSptr w i canPromote).fired = s.fired := by
  have hattempt : (s.wrcAttemptIncStrongRef canPromote).2.fired = s.fired :=
    counterAttemptIncStrongRef_fired s canPromote
  unfold State.takeSptr
  rcases hrun : s.wrcAttemptIncStrongRef canPromote with ⟨ok, q⟩
  rw [hrun] at hattempt
  cases ok with
  | false => exact hattempt
  | true =>
      have hget := (State.getRefPtr_same q (q.target w)).fired.trans hattempt
      simp only
      split <;> exact hget

theorem attempt_fired (s : State) (canPromote : Bool) (count : Int) :
    s.fired ≤ (if count = initialPrimaryValue then
      (s.counterAttemptIncStrongRef canPromote).2.2.onFirstStrongRef
      else (s.counterAttemptIncStrongRef canPromote).2.2).fired := by
  have hattempt := counterAttemptIncStrongRef_fired s canPromote
  split
  · exact hattempt.symm.le.trans (Nat.le_succ _)
  · exact hattempt.symm.le

/-- Only the operations that take a reference look at what has been told, and they add to it. -/
theorem fired_le_step (s : State) (op : Op) : s.fired ≤ (s.step op).fired := by
  cases op with
  | newSptr i => exact incStrongRef_fired { s with sptrs := insert i s.sptrs }
  | copySptr i j =>
      rw [State.step, State.copySptr]
      split
      · exact incStrongRef_fired { s with sptrs := insert j s.sptrs }
      · exact le_rfl
  | moveSptr i j =>
      rw [State.step, State.moveSptr]
      split <;> exact le_rfl
  | clearSptr i => exact (clearSptr_fired s i).symm.le
  | assignSptr i j =>
      rw [State.step, State.assignSptr]
      split
      · refine (incStrongRef_fired s).trans ?_
        simp only
        split
        · exact (decStrongRef_fired s.incStrongRef).symm.le
        · exact le_rfl
      · exact (clearSptr_fired s j).symm.le
  | promote w i canPromote =>
      rw [State.step, State.promote]
      split
      · exact (takeSptr_fired s w i canPromote).symm.le
      · exact le_rfl
  | assignWptrToSptr w i canPromote =>
      rw [State.step, State.assignWptrToSptr]
      simp only
      rw [← clearSptr_fired s i]
      set q := s.clearSptr i
      have hget := (State.getRefPtr_same q (q.target w)).fired
      split
      · split
        · rw [takeSptr_fired]
          exact hget.symm.le
        · exact hget.symm.le
      · exact le_rfl
  | newWptr i => exact (State.wrcIncWeakRefCount_same s.createWeakRef s.next).fired.symm.le
  | copyWptr i j =>
      rw [State.step, State.copyWptr]
      split
      · exact (State.wrcIncWeakRefCount_same s (s.target i)).fired.symm.le
      · exact le_rfl
  | dropWptr i => exact (State.dropWptr_same s i).fired.symm.le
  | assignWptr i j =>
      rw [State.step, State.assignWptr]
      split
      · have hinc := State.wrcIncWeakRefCount_same s (s.target i)
        exact (hinc.trans (State.dropTarget_same _ j)).fired.symm.le
      · exact (State.dropWptr_same s j).fired.symm.le
  | assignSptrToWptr j =>
      have hinc := State.wrcIncWeakRefCount_same s.createWeakRef s.next
      exact (hinc.trans (State.dropTarget_same _ j)).fired.symm.le
  | attemptAcquire canPromote =>
      have hattempt := attempt_fired s canPromote (s.counterAttemptIncStrongRef canPromote).2.1
      have hfalse := counterAttemptIncStrongRef_fired s canPromote
      rw [State.step, State.attemptAcquire]
      rcases hrun : s.counterAttemptIncStrongRef canPromote with ⟨ok, count, q⟩
      rw [hrun] at hattempt hfalse
      simp only at hattempt hfalse ⊢
      cases ok with
      | true =>
          by_cases hcount : count = initialPrimaryValue
          · rw [if_pos hcount] at hattempt
            simp only [if_pos hcount]
            exact hattempt
          · rw [if_neg hcount] at hattempt
            simp only [if_neg hcount]
            exact hattempt
      | false => exact hfalse.symm.le
  | attemptIncStrongRef promoted canPromote =>
      rw [State.step, State.attemptIncStrongRef]
      split
      · exact attempt_fired s canPromote _
      · exact le_rfl
  | checkIsAttemptAcquireSet =>
      rw [State.step, State.checkIsAttemptAcquireSet]
      split
      · simp only
        rw [(State.decWeakRefCount_same _).fired]
        unfold State.decStrongRefCount
        simp only
        split
        · exact le_rfl
        · split <;> exact le_rfl
      · exact le_rfl
  | decStrongRef => exact (decStrongRef_fired s).symm.le

theorem Taken.step {s : State} (h : Taken s) {op : Op} (htold : op.Told s) : Taken (s.step op) := by
  refine (Known.step (Or.inr h) htold).resolve_left fun hu => ?_
  have hle := fired_le_step s op
  rw [hu.fired, h.fired] at hle
  exact absurd hle (by decide)

/-! ## Runs -/

theorem untaken_new (extended : Bool) : Untaken (State.new extended) := ⟨rfl, rfl⟩

theorem Taken.run {s : State} (h : Taken s) {ops : List Op}
    (htold : Along (fun s op => op.Told s) State.step s ops) : Taken (s.run ops) :=
  Along.invariant (fun _ _ hop ht => ht.step hop) htold h

/-- **`OnFirstStrongRef` is called exactly once** in a run in which the strong count leaves the
initial value, by the operation that made it leave, and not at all in another one. -/
structure FirstOnce (s : State) (ops : List Op) : Prop where
  once : (∃ pre, pre <+: ops ∧ (s.run pre).refs.strong ≠ initialPrimaryValue) → (s.run ops).fired = 1
  never : (∀ pre, pre <+: ops → (s.run pre).refs.strong = initialPrimaryValue) →
    (s.run ops).fired = 0
  here : Along (fun s op => s.fired < (s.step op).fired ↔
    s.refs.strong = initialPrimaryValue ∧ (s.step op).refs.strong ≠ initialPrimaryValue)
    State.step s ops

theorem Known.here {s : State} (h : Known s) {op : Op} (htold : op.Told s) :
    s.fired < (s.step op).fired ↔
      s.refs.strong = initialPrimaryValue ∧ (s.step op).refs.strong ≠ initialPrimaryValue := by
  rcases h with hu | ht
  · rcases Known.step (Or.inl hu) htold with hu' | ht'
    · refine iff_of_false ?_ fun hleft => hleft.2 hu'.strong
      rw [hu.fired, hu'.fired]
      exact lt_irrefl 0
    · refine iff_of_true ?_ ⟨hu.strong, ht'.lt.ne⟩
      rw [hu.fired, ht'.fired]
      exact Nat.zero_lt_one
  · refine iff_of_false ?_ fun hleft => ht.lt.ne hleft.1
    rw [ht.fired, (ht.step htold).fired]
    exact lt_irrefl 1

theorem first_strong_once (extended : Bool) {ops : List Op}
    (htold : Along (fun s op => op.Told s) State.step (State.new extended) ops) :
    FirstOnce (State.new extended) ops := by
  have hnew := untaken_new extended
  have hknown : Known ((State.new extended).run ops) :=
    Along.invariant (I := Known) (fun _ _ hop h => h.step hop) htold (Or.inl hnew)
  refine ⟨?_, fun hall => ?_, ?_⟩
  · rintro ⟨pre, ⟨rest, rfl⟩, hleft⟩
    rw [Along.append] at htold
    have hpre : Known ((State.new extended).run pre) :=
      Along.invariant (I := Known) (fun _ _ hop h => h.step hop) htold.1 (Or.inl hnew)
    have htaken := hpre.resolve_left fun hu => hleft hu.strong
    have hrest := htaken.run htold.2
    rw [State.run, List.foldl_append]
    exact hrest.fired
  · exact (hknown.resolve_right fun ht => ht.lt.ne (hall ops (List.prefix_refl ops))).fired
  · have hk : Known (State.new extended) := Or.inl hnew
    clear hknown hnew
    generalize State.new extended = s at htold hk
    induction ops generalizing s with
    | nil => trivial
    | cons op ops ih => exact ⟨hk.here htold.1, ih _ htold.2 (hk.step htold.1)⟩

/-- An `sptr` comes first, then a `wptr` is promoted. -/
theorem first_strong_once_promoted :
    FirstOnce (State.new false) [.newWptr 0, .newSptr 0, .promote 0 1 true, .clearSptr 0] := by
  refine first_strong_once false
    ⟨trivial, ?_, ⟨by decide +kernel, fun _ h => absurd h (by decide +kernel)⟩, trivial, trivial⟩
  show ((State.new false).step (.newWptr 0)).refs.strong + 1 ≠ initialPrimaryValue
  decide +kernel

/-- **A first reference that is not told.** A `wptr` is made for a new object and promoted. -/
theorem promoted_not_told : ¬ FirstOnce (State.new false) [.newWptr 0, .promote 0 0 true] := by
  intro h
  have hfired := h.once ⟨_, List.prefix_refl _, by decide +kernel⟩
  revert hfired
  decide +kernel

end CUtils.RefBases
