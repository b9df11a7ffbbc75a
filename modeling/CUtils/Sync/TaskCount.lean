import CUtils.Sync.BoundedFifo

/-!
# The count of unfinished tasks

`OneTaskDone` reads the count and later stores one less. What comes in between is lost: nothing
that holds the mutex can, but the increment of the tracking `Push` does not hold it. Without such
an increment the count is that of the tasks that have been pushed and not reported done
(`no_lost_update`); with one it is not (`lost_increment`).
-/

namespace CUtils.BlockQueues

open Finset Threads StateRun

variable {ι α : Type}

/-- What `OneTaskDone` has read, less one, and not yet stored. -/
def Pc.loaded : Pc α → Option Int
  | .notifyAll unfinished | .store unfinished => some unfinished
  | _ => none

variable {s s' : State ι α} {t : ι}

structure Tracked (s : State ι α) : Prop where
  count : s.unfinishedTaskCount = s.increments - s.tasksDone
  range : 0 ≤ s.unfinishedTaskCount ∧ s.unfinishedTaskCount < 2 ^ 31
  loaded : ∀ u n, (s.threads u).loaded = some n → n = s.unfinishedTaskCount - 1 ∧ 0 ≤ n

/-- The count is as before, and nobody reads it. -/
theorem Tracked.quiet (h : Tracked s) (hcount : s'.unfinishedTaskCount = s.unfinishedTaskCount)
    (hinc : s'.increments = s.increments) (hdone : s'.tasksDone = s.tasksDone)
    (hloaded : ∀ u n, (s'.threads u).loaded = some n → ∃ v, (s.threads v).loaded = some n) :
    Tracked s' where
  count := by rw [hcount, hinc, hdone]; exact h.count
  range := by rw [hcount]; exact h.range
  loaded u n hu := by
    obtain ⟨v, hv⟩ := hloaded u n hu
    rw [hcount]
    exact h.loaded v n hv

variable [DecidableEq ι]

theorem loaded_update {y : Pc α} (hy : y.loaded = none) {u : ι} {n : Int}
    (hu : (Function.update s.threads t y u).loaded = some n) : (s.threads u).loaded = some n := by
  by_cases hut : u = t
  · rw [hut, Function.update_self, hy] at hu
    cases hu
  · rwa [Function.update_of_ne hut] at hu

theorem Tracked.goto {y : Pc α} (h : Tracked s) (hy : y.loaded = none) : Tracked (s.goto t y) :=
  h.quiet rfl rfl rfl fun u _ hu => ⟨u, loaded_update hy hu⟩

/-- The same for a step that also changes the queue or the mutex. -/
theorem Tracked.goto' {q : State ι α} {y : Pc α} (h : Tracked s) (hy : y.loaded = none)
    (hcount : q.unfinishedTaskCount = s.unfinishedTaskCount) (hinc : q.increments = s.increments)
    (hdone : q.tasksDone = s.tasksDone) (hthreads : q.threads = s.threads) : Tracked (q.goto t y) := by
  refine h.quiet hcount hinc hdone fun u n hu => ⟨u, ?_⟩
  rw [← hthreads]
  exact loaded_update hy hu

theorem Tracked.increment {y : Pc α} (h : Tracked s) (hy : y.loaded = none)
    (halone : ∀ u, (s.threads u).loaded = none) (hroom : s.unfinishedTaskCount + 1 < 2 ^ 31) :
    Tracked (s.increment.goto t y) := by
  have hrange := h.range
  have hcount := h.count
  have hint : int (s.unfinishedTaskCount + 1) = s.unfinishedTaskCount + 1 :=
    int_eq (by omega) (by omega)
  refine ⟨?_, ?_, fun u n hu => ?_⟩
  · show int (s.unfinishedTaskCount + 1) = (s.increments + 1 : Nat) - (s.tasksDone : Int)
    rw [hint]
    push_cast
    omega
  · show 0 ≤ int (s.unfinishedTaskCount + 1) ∧ int (s.unfinishedTaskCount + 1) < 2 ^ 31
    rw [hint]
    omega
  · have hbefore := loaded_update (s := s) hy hu
    rw [halone u] at hbefore
    cases hbefore

/-- `OneTaskDone` reads the count. -/
theorem Tracked.load {y : Pc α} (h : Tracked s) {n : Int} (hy : y.loaded = some n)
    (hn : n = s.unfinishedTaskCount - 1) (hpos : 0 ≤ n) : Tracked (s.goto t y) := by
  refine ⟨h.count, h.range, fun u m hu => ?_⟩
  by_cases hut : u = t
  · have hself : (Function.update s.threads t y t).loaded = some m := hut ▸ hu
    rw [Function.update_self, hy] at hself
    rw [← Option.some.inj hself]
    exact ⟨hn, hpos⟩
  · have hother : (Function.update s.threads t y u).loaded = some m := hu
    rw [Function.update_of_ne hut] at hother
    exact h.loaded u m hother

theorem Tracked.body {call : Call α} (h : Tracked s) (t : ι) : Tracked (s.body t call) := by
  have hsleep : ∀ call, Tracked (s.sleep t call) := fun call => h.goto' rfl rfl rfl rfl rfl
  cases call with
  | push elem =>
      show Tracked (if _ then _ else _)
      split
      · exact hsleep _
      · exact h.goto' rfl rfl rfl rfl rfl
  | pop =>
      unfold State.body
      simp only
      split
      · exact hsleep _
      · exact h.goto' rfl rfl rfl rfl rfl
  | pushNoWait elem =>
      show Tracked (if _ then _ else _)
      split
      · exact h.goto rfl
      · refine h.goto' ?_ rfl rfl rfl rfl
        cases s.tracking <;> rfl
  | popNotWait =>
      unfold State.body
      simp only
      split
      · exact h.goto rfl
      · exact h.goto' rfl rfl rfl rfl rfl
  | oneTaskDone =>
      have hrange := h.range
      have hint : int (s.unfinishedTaskCount - 1) = s.unfinishedTaskCount - 1 :=
        int_eq (by omega) (by omega)
      unfold State.body
      simp only [hint]
      split
      · split
        · exact h.goto rfl
        · exact h.load rfl rfl (by omega)
      · exact h.load rfl rfl (by omega)
  | join =>
      show Tracked (if _ then _ else _)
      split
      · exact h.goto rfl
      · exact hsleep _

variable [Fintype ι]

omit [DecidableEq ι] in
/-- While a thread has the mutex, no other has read the count. -/
theorem Inv.alone (h : Inv s) (ht : (s.threads t).inside = true) {u : ι} (hne : u ≠ t) :
    (s.threads u).loaded = none := by
  cases hu : s.threads u with
  | notifyAll n => exact absurd (h.guarded.unique ht (by rw [hu]; rfl)) hne
  | store n => exact absurd (h.guarded.unique ht (by rw [hu]; rfl)) hne
  | _ => rfl

omit [DecidableEq ι] [Fintype ι] in
@[simp] theorem loaded_wake (pc : Pc α) (cv : Cv) : (pc.wake cv).loaded = pc.loaded := by
  cases pc with
  | asleep call =>
      show (if _ then _ else _ : Pc α).loaded = none
      split <;> rfl
  | _ => rfl

theorem Tracked.notifyOne (h : Tracked s) (woken : ι) (cv : Cv) : Tracked (s.notifyOne t woken cv) := by
  unfold State.notifyOne
  split
  · split
    · rename_i hwoken
      have hnone : ((s.threads woken).wake cv).loaded = none := by
        rw [loaded_wake]
        cases hpc : s.threads woken with
        | asleep call => rfl
        | _ => rw [hpc] at hwoken; cases hwoken
      exact (h.goto hnone).goto rfl
    · exact h
  · exact h.goto rfl

/-- `OneTaskDone` stores what it has read less one, which still is the count less one. -/
theorem Tracked.store (h : Tracked s) (hinv : Inv s) {n : Int} (ht : s.threads t = .store n) :
    Tracked (State.goto { s with unfinishedTaskCount := n, tasksDone := s.tasksDone + 1 } t .unlock) := by
  obtain ⟨hn, hpos⟩ := h.loaded t n (by rw [ht]; rfl)
  have hcount := h.count
  have hrange := h.range
  refine ⟨?_, ?_, fun u m hu => ?_⟩
  · show n = s.increments - (s.tasksDone + 1 : Nat)
    push_cast
    omega
  · show 0 ≤ n ∧ n < 2 ^ 31
    omega
  · by_cases hut : u = t
    · have hself : (Function.update s.threads t .unlock t).loaded = some m := hut ▸ hu
      rw [Function.update_self] at hself
      cases hself
    · have hother : (Function.update s.threads t .unlock u).loaded = some m := hu
      rw [Function.update_of_ne hut, hinv.alone (by rw [ht]; rfl) hut] at hother
      cases hother

/-! ## Runs -/

/-- No increment outside the mutex comes between the reading and the storing of a `OneTaskDone`, and
the count stays an `int`. -/
def Undisturbed (s : State ι α) : ι × Act ι α → Prop
  | (t, .go _) =>
      match s.threads t with
      | .increment _ => (∀ u, (s.threads u).loaded = none) ∧
          (s.increments : Int) - s.tasksDone + 1 < 2 ^ 31
      | .count => (s.increments : Int) - s.tasksDone + 1 < 2 ^ 31
      | _ => True
  | (_, .call _) | (_, .spurious) => True

theorem Tracked.go (h : Tracked s) (hinv : Inv s) {woken : ι} (ha : Undisturbed s (t, .go woken)) :
    Tracked (s.go t woken) := by
  have hcount := h.count
  have hlock : ∀ call : Call α, Tracked (s.lock t (.body call)) := by
    intro call
    unfold State.lock
    cases s.owner with
    | none => exact h.goto' rfl rfl rfl rfl rfl
    | some u => exact h
  have halone : (s.threads t).inside = true → (s.threads t).loaded = none →
      ∀ u, (s.threads u).loaded = none := by
    intro hin hnone u
    by_cases hut : u = t
    · rw [hut]
      exact hnone
    · exact hinv.alone hin hut
  unfold State.go
  unfold Undisturbed at ha
  cases ht : s.threads t with
  | idle => exact h
  | asleep call => exact h
  | increment elem =>
      simp only [ht] at ha
      exact h.increment rfl ha.1 (by omega)
  | lock call => exact hlock call
  | notified call => exact hlock call
  | awake call => exact hlock call
  | body call => exact h.body t
  | count =>
      simp only [ht] at ha
      exact h.increment rfl (halone (by rw [ht]; rfl) (by rw [ht]; rfl)) (by omega)
  | notify cv => exact h.notifyOne woken cv
  | notifyAll unfinished =>
      obtain ⟨hn, hpos⟩ := h.loaded t unfinished (by rw [ht]; rfl)
      refine Tracked.load (h.quiet rfl rfl rfl fun u n hu => ⟨u, ?_⟩) rfl hn hpos
      rw [← hu]
      exact (loaded_wake (s.threads u) .allTasksDone).symm
  | store unfinished => exact h.store hinv ht
  | unlock => exact h.goto' rfl rfl rfl rfl rfl

theorem Tracked.step (h : Tracked s) (hinv : Inv s) (a : ι × Act ι α) (ha : Undisturbed s a) :
    Tracked (s.step a) := by
  obtain ⟨t, a⟩ := a
  cases a with
  | call call =>
      simp only [State.step]
      split
      · cases call with
        | push elem =>
            refine h.goto ?_
            cases s.tracking <;> rfl
        | oneTaskDone =>
            show Tracked (if _ then _ else _)
            split
            · exact h.goto rfl
            · exact h
        | join =>
            show Tracked (if _ then _ else _)
            split
            · exact h.goto rfl
            · exact h
        | _ => exact h.goto rfl
      · exact h
  | go woken => exact h.go hinv ha
  | spurious =>
      simp only [State.step]
      split
      · exact h.goto rfl
      · exact h

/-- The count is that of the tasks that have not been reported done: for a `OneTaskDone` and for a
`Join` that are about to look at it, and for everybody as long as no `OneTaskDone` is between its
reading and its storing. -/
structure CountsTasks (s : State ι α) : Prop where
  count : (∀ u, (s.threads u).loaded = none) → s.unfinishedTaskCount = s.increments - s.tasksDone
  /-- `OneTaskDone` returns `false` only if there is nothing left to report. -/
  oneTaskDone : ∀ t woken, s.threads t = .body .oneTaskDone →
    ((s.step (t, .go woken)).threads t = .unlock ↔ s.increments = s.tasksDone)
  /-- `Join` returns only if everything has been reported. -/
  join : ∀ t woken, s.threads t = .body .join →
    ((s.step (t, .go woken)).threads t = .unlock ↔ s.increments = s.tasksDone)

theorem Tracked.countsTasks (h : Tracked s) : CountsTasks s := by
  have hcount := h.count
  have hrange := h.range
  refine ⟨fun _ => hcount, fun t woken ht => ?_, fun t woken ht => ?_⟩
  · have hint : int (s.unfinishedTaskCount - 1) = s.unfinishedTaskCount - 1 :=
      int_eq (by omega) (by omega)
    have hstep : s.step (t, .go woken) = s.body t .oneTaskDone := by
      show s.go t woken = _
      rw [State.go, ht]
    rw [hstep]
    unfold State.body
    simp only [hint]
    split
    · split
      · refine iff_of_true ?_ (by omega)
        show Function.update _ _ _ _ = _
        rw [Function.update_self]
      · refine iff_of_false ?_ (by omega)
        show ¬ Function.update _ _ _ _ = _
        rw [Function.update_self]
        exact nofun
    · refine iff_of_false ?_ (by omega)
      show ¬ Function.update _ _ _ _ = _
      rw [Function.update_self]
      exact nofun
  · have hstep : s.step (t, .go woken) = s.body t .join := by
      show s.go t woken = _
      rw [State.go, ht]
    rw [hstep]
    show (if _ then _ else _ : State ι α).threads t = _ ↔ _
    split
    · refine iff_of_true ?_ (by omega)
      show Function.update _ _ _ _ = _
      rw [Function.update_self]
    · refine iff_of_false ?_ (by omega)
      show ¬ Function.update _ _ _ _ = _
      rw [Function.update_self]
      exact nofun

omit [DecidableEq ι] [Fintype ι] in
theorem Tracked.new (maxSize : Nat) (tracking : Bool) :
    Tracked (State.new maxSize tracking : State ι α) where
  count := rfl
  range := ⟨le_rfl, by show (0 : Int) < 2 ^ 31; decide⟩
  loaded _ _ h := absurd h nofun

/-- **No update is lost** in a run in which no `Push` increments the count between the reading and
the storing of a `OneTaskDone`. -/
theorem no_lost_update (maxSize : Nat) (tracking : Bool) (as : List (ι × Act ι α))
    (has : Along Undisturbed State.step (State.new maxSize tracking) as) :
    CountsTasks ((State.new maxSize tracking).run as) := by
  have hboth : Inv ((State.new maxSize tracking).run as) ∧
      Tracked ((State.new maxSize tracking).run as) :=
    has.invariant (I := fun s => Inv s ∧ Tracked s)
      (fun s a ha h => ⟨h.1.step a, h.2.step h.1 a ha⟩)
      ⟨Inv.new maxSize tracking, Tracked.new maxSize tracking⟩
  exact hboth.2.countsTasks

/-- A task is pushed and waited for; another thread reports it done, which wakes the `Join`. -/
def oneTask : List (Bool × Act Bool Unit) :=
  [(false, .call (.push ())), (false, .go true), (false, .go true), (false, .go true),
    (false, .go true), (false, .go true), (false, .call .join), (false, .go true),
    (false, .go true), (true, .call .oneTaskDone), (true, .go true), (true, .go true),
    (true, .go true), (true, .go true), (true, .go true), (false, .go true), (false, .go true),
    (false, .go true)]

theorem no_lost_update_oneTask :
    ((State.new 1 true).run oneTask).tasksDone = 1 ∧
    ((State.new 1 true).run oneTask).threads false = .idle ∧
    CountsTasks ((State.new 1 true).run oneTask) := by
  refine ⟨by decide, rfl, no_lost_update 1 true oneTask ?_⟩
  refine ⟨trivial, ⟨fun u => ?_, ?_⟩, ?_⟩
  · cases u <;> rfl
  · decide
  · repeat' constructor

/-- A second `Push` increments the count while `OneTaskDone` is about to store. -/
def lostPush : List (Bool × Act Bool Unit) :=
  [(false, .call (.push ())), (false, .go true), (false, .go true), (false, .go true),
    (false, .go true), (false, .go true), (true, .call .oneTaskDone), (true, .go true),
    (true, .go true), (false, .call (.push ())), (false, .go true), (true, .go true),
    (true, .go true), (true, .go true)]

theorem lost_increment :
    ¬ ∀ as : List (Bool × Act Bool Unit), CountsTasks ((State.new 2 true).run as) := by
  intro h
  have hcount := (h lostPush).count fun u => by cases u <;> rfl
  exact absurd hcount (by decide)

end CUtils.BlockQueues
