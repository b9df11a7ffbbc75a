import CUtils.Timer.Agreement

/-!
# Lists left empty

`Shutdown` takes an empty `intervalToTimers_` to mean that no timer is registered, and then does not
wait for the thread. That is right as long as no interval is left with an empty list. `Unregister`
and `EraseUnusedTimerId` erase a list with its last entry; but a lookup with `[]` makes a list, and
`OnTimer` and `EraseUnusedTimerId` look up an interval whose list may have gone by then. So an
operation leaves an empty list exactly when it looks one up that is not there (`Op.Finds`).
-/

namespace CUtils.Timers

open StateRun

def NoEmptyLists (t : Timer) : Prop := ∀ interval, t.intervalToTimers interval ≠ some []

/-- The list that the operation looks up is there. -/
def Op.Finds (t : Timer) : Op → Prop
  | .onTimer timerFd =>
      t.firing = none → t.intervalToTimers ((t.timers timerFd).getD 0) ≠ none
  | .onTimerEnd => ∀ f ∈ t.firing, f.entryList = [] → f.onceIdsUnused ≠ [] →
      t.intervalToTimers f.interval ≠ none
  | _ => True

variable {t : Timer} {interval : BitVec 32}

theorem Timer.setList_intervalToTimers (t : Timer) (interval interval' : BitVec 32)
    (l : List Entry) : (t.setList interval l).intervalToTimers interval' =
      if interval' = interval then some l else t.intervalToTimers interval' :=
  Function.update_apply _ _ _ _

theorem NoEmptyLists.setList (h : NoEmptyLists t) {l : List Entry} (hl : l ≠ []) :
    NoEmptyLists (t.setList interval l) := by
  intro interval'
  rw [Timer.setList_intervalToTimers]
  split
  · exact fun heq => hl (Option.some.inj heq)
  · exact h interval'

/-- The list of `interval` may be empty when it comes to its test. -/
theorem NoEmptyLists.dropIfEmpty (h : ∀ interval', interval' ≠ interval →
    t.intervalToTimers interval' ≠ some []) : NoEmptyLists (t.dropIfEmpty interval) := by
  intro interval'
  unfold Timer.dropIfEmpty
  by_cases hnil : t.list interval = []
  · rw [if_pos hnil]
    show Function.update t.intervalToTimers interval none interval' ≠ _
    rw [Function.update_apply]
    split
    · exact nofun
    · rename_i hne
      exact h interval' hne
  · rw [if_neg hnil]
    by_cases hne : interval' = interval
    · intro heq
      refine hnil ?_
      rw [Timer.list, ← hne, heq]
      rfl
    · exact h interval' hne

/-- A lookup leaves no empty list if it finds one that is not. -/
theorem NoEmptyLists.lookup_iff (h : NoEmptyLists t) (interval : BitVec 32) :
    NoEmptyLists (t.setList interval (t.list interval)) ↔ t.intervalToTimers interval ≠ none := by
  constructor
  · intro hlookup hnone
    refine hlookup interval ?_
    rw [Timer.setList_intervalToTimers, if_pos rfl, Timer.list, hnone]
    rfl
  · intro hsome
    refine h.setList fun hnil => ?_
    cases hlist : t.intervalToTimers interval with
    | none => exact hsome hlist
    | some l =>
        rw [Timer.list, hlist] at hnil
        exact h interval (hlist.trans (congrArg some hnil))

/-! ## The operations -/

theorem NoEmptyLists.register (h : NoEmptyLists t) (once : Bool) (create : Option Nat) :
    NoEmptyLists (t.register interval once create).2 := by
  unfold Timer.register
  dsimp only
  split
  · exact h
  · rename_i fd q hplaced
    -- making a descriptor leaves the lists alone
    have hq : q.intervalToTimers = t.intervalToTimers := by
      split at hplaced
      · cases hplaced
        rfl
      · cases create with
        | none => cases hplaced
        | some fd' =>
            cases hplaced
            rfl
    have hlists : NoEmptyLists q := fun interval' => by
      rw [hq]
      exact h interval'
    split
    · exact hlists
    · exact hlists.setList (List.append_ne_nil_of_right_ne_nil _ (List.cons_ne_nil _ []))

theorem NoEmptyLists.unregister (h : NoEmptyLists t) (timerId : Id) :
    NoEmptyLists (t.unregister timerId) := by
  unfold Timer.unregister
  split
  · exact h
  · rename_i entry _
    show NoEmptyLists (Timer.dropIfEmpty _ entry.interval)
    refine NoEmptyLists.dropIfEmpty fun interval' hne => ?_
    split
    · exact h interval'
    · rw [Timer.setList_intervalToTimers, if_neg hne]
      split
      · exact h interval'
      · exact h interval'

theorem NoEmptyLists.eraseLoop (h : NoEmptyLists t) (unusedIds : List Id) (kept rest : List Entry) :
    NoEmptyLists (Timer.eraseLoop interval unusedIds t kept rest) := by
  induction rest generalizing t kept with
  | nil => exact h
  | cons e rest ih =>
      rw [Timer.eraseLoop]
      split
      · exact ih h (kept ++ [e])
      · by_cases hnil : kept ++ rest = []
        · simp only [if_pos hnil]
          refine NoEmptyLists.dropIfEmpty fun interval' hne => ?_
          show (Timer.setList _ _ _).intervalToTimers interval' ≠ _
          rw [Timer.setList_intervalToTimers, if_neg hne]
          exact h interval'
        · simp only [if_neg hnil]
          have hset : NoEmptyLists ((t.dropFd e.timerFd).setList interval (kept ++ rest)) :=
            NoEmptyLists.setList (t := t.dropFd e.timerFd) h hnil
          exact ih (t := ((t.dropFd e.timerFd).setList interval (kept ++ rest)).eraseId e.timerId)
            hset kept

theorem NoEmptyLists.eraseUnusedTimerId_iff (h : NoEmptyLists t) (unusedIds : List Id) :
    NoEmptyLists (t.eraseUnusedTimerId interval unusedIds) ↔ t.intervalToTimers interval ≠ none := by
  constructor
  · intro herase hnone
    -- the loop over the list that was made ends at once
    have hlist : t.list interval = [] := by
      rw [Timer.list, hnone]
      rfl
    refine (h.lookup_iff interval).1 ?_ hnone
    rw [Timer.eraseUnusedTimerId, hlist] at herase
    rw [hlist]
    exact herase
  · intro hsome
    exact ((h.lookup_iff interval).2 hsome).eraseLoop unusedIds [] (t.list interval)

theorem NoEmptyLists.onTimer_iff (h : NoEmptyLists t) (timerFd : Nat) :
    NoEmptyLists (t.onTimer timerFd) ↔ Op.Finds t (.onTimer timerFd) := by
  unfold Timer.onTimer
  cases hfiring : t.firing with
  | some f => exact iff_of_true h fun hnone => absurd (hfiring.symm.trans hnone) nofun
  | none => exact (h.lookup_iff _).trans ⟨fun hsome _ => hsome, fun hfinds => hfinds hfiring⟩

theorem NoEmptyLists.onTimerEnd_iff (h : NoEmptyLists t) :
    NoEmptyLists t.onTimerEnd ↔ Op.Finds t .onTimerEnd := by
  unfold Timer.onTimerEnd
  split
  · rename_i fd interval onceIdsUnused hfiring
    by_cases hnil : onceIdsUnused = []
    · simp only [if_pos hnil]
      refine iff_of_true h fun f hf _ hne => absurd hnil ?_
      obtain rfl := Option.some.inj (hfiring.symm.trans hf)
      exact hne
    · simp only [if_neg hnil]
      refine (NoEmptyLists.eraseUnusedTimerId_iff (t := { t with firing := none }) h _).trans ?_
      constructor
      · intro hsome f hf _ _
        obtain rfl := Option.some.inj (hfiring.symm.trans hf)
        exact hsome
      · exact fun hfinds => hfinds _ hfiring rfl hnil
  · rename_i hother
    refine iff_of_true h fun f hf hdone _ => ?_
    obtain ⟨fd, interval, entryList, onceIdsUnused⟩ := f
    obtain rfl : entryList = [] := hdone
    exact absurd hf (hother fd interval onceIdsUnused)

/-- One step leaves no empty list exactly when it finds the list that it looks up. -/
theorem NoEmptyLists.step_iff (h : NoEmptyLists t) (op : Op) :
    NoEmptyLists (t.step op) ↔ op.Finds t := by
  cases op with
  | register interval once create => exact iff_of_true (h.register once create) trivial
  | unregister timerId => exact iff_of_true (h.unregister timerId) trivial
  | onTimer timerFd => exact h.onTimer_iff timerFd
  | onTimerNext =>
      refine iff_of_true ?_ trivial
      show NoEmptyLists t.onTimerNext
      unfold Timer.onTimerNext
      split
      · exact h
      · exact h
  | onTimerEnd => exact h.onTimerEnd_iff

/-! ## Shutdown -/

/-- What becomes of the thread in `Shutdown`. -/
inductive Exit
  | detached
  | joined
deriving DecidableEq

/-- `intervalToTimers_.empty()` -/
def Timer.NoIntervals (t : Timer) : Prop := ∀ interval, t.intervalToTimers interval = none

/-- `Shutdown` of a timer whose thread is joinable. -/
def Timer.shutdown (t : Timer) [Decidable t.NoIntervals] (timeoutMs : Int) (useJoin : Bool) : Exit :=
  if timeoutMs = -1 ∧ t.NoIntervals then .detached
  else if !useJoin then .detached
  else .joined

/-- No list is empty; `Shutdown` sees whether there is a timer; and when it waits for a thread that
polls without a timeout, there is a descriptor that wakes it. -/
structure ListsTell (t : Timer) : Prop where
  nonempty : NoEmptyLists t
  empty_iff : t.NoIntervals ↔ ∀ i, t.timerToEntries i = none
  awake : ∀ [Decidable t.NoIntervals] (useJoin : Bool), t.shutdown (-1) useJoin = .joined →
    t.handlers.Nonempty

theorem NoEmptyLists.empty_iff (h : NoEmptyLists t) (hagrees : Agrees t) :
    t.NoIntervals ↔ ∀ i, t.timerToEntries i = none := by
  constructor
  · intro hempty i
    cases hi : t.timerToEntries i with
    | none => rfl
    | some e =>
        have hmem := (hagrees.entry i e hi).2
        rw [Timer.list, hempty] at hmem
        cases hmem
  · intro hnone interval
    cases hlist : t.intervalToTimers interval with
    | none => rfl
    | some l =>
        cases l with
        | nil => exact absurd hlist (h interval)
        | cons e l =>
            have hlisted : e ∈ t.list interval := by
              rw [Timer.list, hlist]
              exact List.mem_cons_self
            have hentry := (hagrees.listed interval e hlisted).2
            rw [hnone] at hentry
            cases hentry

theorem ListsTell.of_inv (h : NoEmptyLists t) (hinv : Inv t) : ListsTell t := by
  refine ⟨h, h.empty_iff hinv.toAgrees, fun {_} useJoin hjoined => ?_⟩
  have hsome : ¬ t.NoIntervals := by
    intro hempty
    rw [Timer.shutdown, if_pos ⟨rfl, hempty⟩] at hjoined
    cases hjoined
  obtain ⟨i, hi⟩ := not_forall.1 (hsome ∘ (h.empty_iff hinv.toAgrees).2)
  obtain ⟨e, he⟩ := Option.ne_none_iff_exists'.1 hi
  exact ⟨e.timerFd, hinv.handled i e he⟩

/-- **No empty lists**, as long as every operation finds the list it looks up. -/
theorem lists_tell (ops : List Op)
    (h : Along (fun t op => op.Possible t ∧ ¬ op.Reuses t ∧ op.Finds t) Timer.step Timer.new ops) :
    ListsTell (Timer.new.run ops) := by
  have hboth : NoEmptyLists (Timer.new.run ops) ∧ Inv (Timer.new.run ops) := by
    refine h.invariant (I := fun t => NoEmptyLists t ∧ Inv t) ?_ ⟨fun _ => nofun, Inv.new⟩
    rintro t op ⟨hpossible, hreuses, hfinds⟩ ⟨hlists, hinv⟩
    exact ⟨(hlists.step_iff op).2 hfinds, hinv.step op ⟨hpossible, hreuses⟩⟩
  exact .of_inv hboth.1 hboth.2

/-- A one-shot timer fires. -/
def fires : List Op := [.register 100 true (some 3), .onTimer 3, .onTimerNext, .onTimerEnd]

theorem lists_tell_fires : ListsTell (Timer.new.run fires) := by
  have hlive : Timer.new.live < 2 ^ 32 - 3 := by simp [Timer.live, Timer.new]
  refine lists_tell fires ⟨⟨⟨by simp [Timer.new], hlive⟩, by simp [Op.Reuses], trivial⟩,
    ⟨trivial, id, fun _ => by decide⟩, ⟨trivial, id, trivial⟩, ⟨trivial, id, ?_⟩, trivial⟩
  intro f hf _ _
  obtain rfl := Option.some.inj hf
  decide

/-- Its callback unregisters it. -/
def unregistersItself : List Op :=
  [.register 100 true (some 3), .onTimer 3, .unregister 1, .onTimerNext, .onTimerEnd]

theorem empty_list_left : ¬ ∀ ops,
    Along (fun t op => op.Possible t ∧ ¬ op.Reuses t) Timer.step Timer.new ops →
      ListsTell (Timer.new.run ops) := by
  intro h
  have hlive : Timer.new.live < 2 ^ 32 - 3 := by simp [Timer.live, Timer.new]
  have htell := h unregistersItself ⟨⟨⟨by simp [Timer.new], hlive⟩, by simp [Op.Reuses]⟩,
    ⟨trivial, id⟩, ⟨trivial, id⟩, ⟨trivial, id⟩, ⟨trivial, id⟩, trivial⟩
  exact htell.nonempty 100 (by decide)

end CUtils.Timers
