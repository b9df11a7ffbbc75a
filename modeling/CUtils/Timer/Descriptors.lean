import CUtils.Timer.Agreement

/-!
# Descriptors in use

The repeating timers of an interval share a descriptor, and a one-shot timer has its own. A
descriptor should be scheduled as long as a live entry uses it. That it is as long as one does is in
`Inv`. That it is no longer is up to `Unregister`: for a repeating entry it leaves the descriptor to
be cancelled with the list of the interval, and there the one-shot entries are counted, too
(`Op.Frees`).
-/

namespace CUtils.Timers

open StateRun

/-- A live entry uses the descriptor. -/
def Timer.Uses (t : Timer) (fd : Nat) : Prop := ∃ i e, t.timerToEntries i = some e ∧ e.timerFd = fd

/-- No descriptor is scheduled for nothing. -/
def NoneIdle (t : Timer) : Prop := ∀ fd ∈ t.handlers, t.Uses fd

/-- `Unregister` of a repeating timer finds no other timer of the interval, or another one on the
same descriptor. -/
def Op.Frees (t : Timer) : Op → Prop
  | .unregister i => ∀ e, t.timerToEntries i = some e → e.once = false →
      (∀ e' ∈ t.list e.interval, e'.timerId = i) ∨
        ∃ j e', j ≠ i ∧ t.timerToEntries j = some e' ∧ e'.timerFd = e.timerFd
  | _ => True

variable {t : Timer} {i : Id} {e : Entry} {l : List Entry} {fd : Nat}

theorem handlers_removed_once (honce : e.once = true) (h : fd ∈ (t.removed i e l).handlers) :
    fd ∈ t.handlers ∧ fd ≠ e.timerFd := by
  rw [Timer.removed, if_pos honce] at h
  obtain ⟨hmem, -⟩ := Timer.mem_handlers_dropIfEmpty.1 h
  obtain ⟨hne, hmem⟩ := Finset.mem_erase.1 hmem
  exact ⟨hmem, hne⟩

theorem handlers_removed_repeating (honce : e.once = false) :
    fd ∈ (t.removed i e l).handlers ↔
      fd ∈ t.handlers ∧ (l = [] → t.timers fd ≠ some e.interval) := by
  rw [Timer.removed, if_neg (by rw [honce]; exact Bool.false_ne_true)]
  refine Timer.mem_handlers_dropIfEmpty.trans ?_
  rw [Timer.list_setList, if_pos rfl]
  rfl

theorem Timer.Uses.removed {j : Id} {e' : Entry} (hj : t.timerToEntries j = some e') (hji : j ≠ i) :
    (t.removed i e l).Uses e'.timerFd := by
  refine ⟨j, e', ?_, rfl⟩
  rw [Timer.removed_timerToEntries, Function.update_of_ne hji]
  exact hj

theorem NoneIdle.removed_once (h : NoneIdle t) (he : t.timerToEntries i = some e)
    (honce : e.once = true) : NoneIdle (t.removed i e l) := by
  intro fd hfd
  obtain ⟨hmem, hne⟩ := handlers_removed_once honce hfd
  obtain ⟨j, e', hj, rfl⟩ := h fd hmem
  refine .removed hj fun hji => ?_
  rw [hji, he] at hj
  exact hne (congrArg Entry.timerFd (Option.some.inj hj)).symm

/-- A repeating entry may go if its descriptor goes with it or is used on. -/
theorem NoneIdle.removed_repeating_iff (h : NoneIdle t) (hinv : Inv t)
    (he : t.timerToEntries i = some e) (honce : e.once = false) :
    NoneIdle (t.removed i e l) ↔
      l = [] ∨ ∃ j e', j ≠ i ∧ t.timerToEntries j = some e' ∧ e'.timerFd = e.timerFd := by
  constructor
  · intro hnone
    by_cases hnil : l = []
    · exact Or.inl hnil
    · have hmem : e.timerFd ∈ (t.removed i e l).handlers :=
        (handlers_removed_repeating honce).2 ⟨hinv.handled i e he, fun h => absurd h hnil⟩
      obtain ⟨j, e', hj, hfd⟩ := hnone _ hmem
      rw [Timer.removed_timerToEntries] at hj
      by_cases hji : j = i
      · rw [hji, Function.update_self] at hj
        cases hj
      · rw [Function.update_of_ne hji] at hj
        exact Or.inr ⟨j, e', hji, hj, hfd⟩
  · intro hfrees fd hfd
    obtain ⟨hmem, hdropped⟩ := (handlers_removed_repeating honce).1 hfd
    obtain ⟨j, e', hj, rfl⟩ := h fd hmem
    by_cases hji : j = i
    · rw [hji, he] at hj
      obtain rfl := Option.some.inj hj
      rcases hfrees with hnil | ⟨k, e'', hki, hk, hsame⟩
      · exact absurd (hinv.timers i e he) (hdropped hnil)
      · rw [← hsame]
        exact .removed hk hki
    · exact .removed hj hji

theorem NoneIdle.unregister_iff (h : NoneIdle t) (hinv : Inv t) (i : Id) :
    NoneIdle (t.unregister i) ↔ Op.Frees t (.unregister i) := by
  cases he : t.timerToEntries i with
  | none =>
      rw [Timer.unregister, he]
      exact iff_of_true h fun e he' => absurd (he.symm.trans he').symm (Option.some_ne_none e)
  | some e =>
      rw [hinv.unregister_eq he]
      cases honce : e.once with
      | true =>
          refine iff_of_true (h.removed_once he honce) fun e' he' hrepeats => ?_
          rw [← Option.some.inj (he.symm.trans he'), honce] at hrepeats
          cases hrepeats
      | false =>
          refine (h.removed_repeating_iff hinv he honce).trans ?_
          have hnil : ((t.list e.interval).filter fun e => e.timerId ≠ i) = [] ↔
              ∀ e' ∈ t.list e.interval, e'.timerId = i := by
            simp [List.filter_eq_nil_iff]
          rw [hnil]
          constructor
          · intro hfrees e' he' _
            obtain rfl := Option.some.inj (he.symm.trans he')
            exact hfrees
          · exact fun hfrees => hfrees e he honce

/-- The entry that `Register` adds uses the descriptor that it schedules. -/
theorem NoneIdle.register (h : NoneIdle t) (hinv : Inv t) (interval : BitVec 32) (once : Bool)
    {create : Option Nat} (hcreate : ∀ fd ∈ create, fd ∉ t.handlers) (hlive : t.live < 2 ^ 32 - 3) :
    NoneIdle (t.register interval once create).2 := by
  rcases hinv.register_cases interval once hcreate hlive with hfail |
    ⟨i, q, fd, -, -, hfree, hrun, -, hentries, -, -, hhandlers, -⟩
  · rw [hfail]
    exact h
  · rw [hrun]
    intro fd' hfd'
    change fd' ∈ q.handlers at hfd'
    have hadded : (q.addEntry ⟨i, interval, once, fd⟩).timerToEntries =
        Function.update t.timerToEntries i (some ⟨i, interval, once, fd⟩) := by
      rw [← hentries]
      rfl
    rw [hhandlers, Finset.mem_insert] at hfd'
    rcases hfd' with hnew | hold
    · refine ⟨i, ⟨i, interval, once, fd⟩, ?_, hnew.symm⟩
      rw [hadded, Function.update_self]
    · obtain ⟨j, e, hj, rfl⟩ := h fd' hold
      have hji : j ≠ i := by
        rintro rfl
        rw [hfree] at hj
        cases hj
      refine ⟨j, e, ?_, rfl⟩
      rw [hadded, Function.update_of_ne hji]
      exact hj

theorem NoneIdle.default {t' : Timer} (h : NoneIdle t) (hentries : t'.timerToEntries = t.timerToEntries)
    (hhandlers : t'.handlers = t.handlers) : NoneIdle t' := by
  intro fd hfd
  rw [hhandlers] at hfd
  obtain ⟨i, e, hi, hefd⟩ := h fd hfd
  exact ⟨i, e, by rw [hentries]; exact hi, hefd⟩

/-- One step leaves no descriptor scheduled for nothing exactly when `Unregister` frees it. -/
theorem NoneIdle.step_iff (h : NoneIdle t) (hinv : Inv t) (op : Op) (hop : op.Possible t) :
    NoneIdle (t.step op) ↔ op.Frees t := by
  cases op with
  | register interval once create =>
      exact iff_of_true (h.register hinv interval once hop.1 hop.2) trivial
  | unregister i => exact h.unregister_iff hinv i
  | onTimer timerFd =>
      refine iff_of_true ?_ trivial
      show NoneIdle (t.onTimer timerFd)
      unfold Timer.onTimer
      split
      · exact h
      · exact h.default rfl rfl
  | onTimerNext =>
      refine iff_of_true ?_ trivial
      show NoneIdle t.onTimerNext
      unfold Timer.onTimerNext
      split
      · exact h.default rfl rfl
      · exact h
  | onTimerEnd =>
      refine iff_of_true ?_ trivial
      exact (hinv.onTimerEnd_keeps (fun t i e l _ he honce ht => NoneIdle.removed_once ht he honce)
        (fun t t' hentries hhandlers ht => NoneIdle.default ht hentries hhandlers) h).2

/-! ## Runs -/

/-- The descriptors that the reactor has timers for are those that live entries use. -/
def ScheduledWhileUsed (t : Timer) : Prop := ∀ fd, fd ∈ t.handlers ↔ t.Uses fd

/-- **Descriptors are scheduled while they are used**, as long as every `Unregister` frees what it
should. -/
theorem scheduled_while_used (ops : List Op)
    (h : Along (fun t op => op.Possible t ∧ ¬ op.Reuses t ∧ op.Frees t) Timer.step Timer.new ops) :
    ScheduledWhileUsed (Timer.new.run ops) := by
  have hboth : NoneIdle (Timer.new.run ops) ∧ Inv (Timer.new.run ops) := by
    refine h.invariant (I := fun t => NoneIdle t ∧ Inv t) ?_ ⟨nofun, Inv.new⟩
    rintro t op ⟨hpossible, hreuses, hfrees⟩ ⟨hidle, hinv⟩
    exact ⟨(hidle.step_iff hinv op hpossible).2 hfrees, hinv.step op ⟨hpossible, hreuses⟩⟩
  refine fun fd => ⟨hboth.1 fd, ?_⟩
  rintro ⟨i, e, hi, rfl⟩
  exact hboth.2.handled i e hi

/-- A one-shot timer, id 1, and a repeating one, id 2, of the same interval. -/
def onceAndRepeating : List Op := [.register 100 true (some 3), .register 100 false (some 4)]

theorem run_onceAndRepeating (ops : List Op) :
    Timer.new.run (onceAndRepeating ++ ops) = (waiting 3 none).run ops := by
  rw [Timer.run, List.foldl_append, onceAndRepeating, run_start, Timer.run]

theorem onceAndRepeating_possible :
    Along (fun t op => op.Possible t ∧ ¬ op.Reuses t ∧ op.Frees t) Timer.step Timer.new
      onceAndRepeating := by
  obtain ⟨hfirst, hsecond, -⟩ := start_possible
  refine ⟨⟨hfirst, fun h => (nomatch h.1), trivial⟩, ⟨hsecond, ?_, trivial⟩, trivial⟩
  rintro ⟨-, f, hf, -⟩
  rw [step_first] at hf
  cases hf

/-- The one-shot timer goes first, and the repeating one is the last of the interval. -/
theorem onceFirst_frees : Op.Frees ((waiting 3 none).unregister 1) (.unregister 2) := by
  intro e he _
  have hentry : ((waiting 3 none).unregister 1).timerToEntries 2 = some ⟨2, 100, false, 4⟩ := by decide
  have hlist : ((waiting 3 none).unregister 1).list 100 = [⟨2, 100, false, 4⟩] := by decide
  obtain rfl := Option.some.inj (hentry.symm.trans he)
  refine Or.inl fun e' he' => ?_
  rw [hlist] at he'
  rw [List.mem_singleton.1 he']

theorem scheduled_while_used_both :
    ScheduledWhileUsed (Timer.new.run (onceAndRepeating ++ [.unregister 1, .unregister 2])) := by
  refine scheduled_while_used _ (Along.append.2 ⟨onceAndRepeating_possible, ?_⟩)
  rw [onceAndRepeating, run_start]
  refine ⟨⟨trivial, id, fun e he hrepeats => ?_⟩, ⟨trivial, id, onceFirst_frees⟩, trivial⟩
  have hentry : (waiting 3 none).timerToEntries 1 = some ⟨1, 100, true, 3⟩ := by decide
  rw [← Option.some.inj (hentry.symm.trans he)] at hrepeats
  cases hrepeats

/-- The repeating timer goes first, and its descriptor stays. -/
theorem idle_descriptor : ¬ ∀ ops,
    Along (fun t op => op.Possible t ∧ ¬ op.Reuses t) Timer.step Timer.new ops →
      ScheduledWhileUsed (Timer.new.run ops) := by
  intro h
  have hlast : Along (fun t op => op.Possible t ∧ ¬ op.Reuses t) Timer.step
      (onceAndRepeating.foldl Timer.step Timer.new) [.unregister 2] := ⟨⟨trivial, id⟩, trivial⟩
  have hscheduled := h _ (Along.append.2
    ⟨onceAndRepeating_possible.mono fun _ _ hop => ⟨hop.1, hop.2.1⟩, hlast⟩)
  rw [run_onceAndRepeating] at hscheduled
  have hhandler : 4 ∈ ((waiting 3 none).run [.unregister 2]).handlers := by decide
  obtain ⟨i, e, hi, hfd⟩ := (hscheduled 4).1 hhandler
  have hentries : ((waiting 3 none).run [.unregister 2]).timerToEntries =
      Function.update (waiting 3 none).timerToEntries 2 none := rfl
  rw [hentries] at hi
  by_cases h2 : i = 2
  · rw [h2, Function.update_self] at hi
    cases hi
  · rw [Function.update_of_ne h2] at hi
    rcases waiting_live (Option.isSome_iff_exists.2 ⟨e, hi⟩) with rfl | hid
    · have hentry : (waiting 3 none).timerToEntries 1 = some ⟨1, 100, true, 3⟩ := by decide
      rw [← Option.some.inj (hentry.symm.trans hi)] at hfd
      cases hfd
    · exact h2 hid

end CUtils.Timers
