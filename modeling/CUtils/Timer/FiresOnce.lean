import CUtils.Timer.Firing

/-!
# What fires, and how often

A one-shot timer is called at most once for each time it was registered. An entry of it can still be
called while it is in the tables, or in the list that `OnTimer` has copied (`Due`); the call uses
that up, as `EraseUnusedTimerId` takes the entry out of the tables before the descriptor is read
again.

And none is passed over: once a read has found something, every entry on the descriptor is called
before `OnTimer` returns, whatever is registered and unregistered meanwhile.
-/

namespace CUtils.Timers

open StateRun

/-! ## Ids that have fired are erased -/

/-- The loop of `EraseUnusedTimerId` takes out every entry whose id has fired. -/
theorem Inv.eraseLoop_gone {t : Timer} (h : Inv t) {interval : BitVec 32} {unusedIds : List Id}
    (honce : ∀ i ∈ unusedIds, ∀ e, t.timerToEntries i = some e → e.once = true)
    {kept rest : List Entry} (hlist : t.list interval = kept ++ rest) {e : Entry} (he : e ∈ rest)
    (hmem : e.timerId ∈ unusedIds) :
    (Timer.eraseLoop interval unusedIds t kept rest).timerToEntries e.timerId = none := by
  induction rest generalizing t kept with
  | nil => cases he
  | cons e' rest ih =>
      by_cases hmem' : e'.timerId ∉ unusedIds
      · rw [Timer.eraseLoop, if_pos hmem']
        have hne : e ≠ e' := by
          rintro rfl
          exact hmem' hmem
        exact ih h honce (by rw [hlist, List.append_assoc]; rfl) ((List.mem_cons.1 he).resolve_left hne)
      · obtain ⟨hinterval, he'⟩ := h.listed interval e' (by rw [hlist]; simp)
        have hfired := honce e'.timerId (not_not.1 hmem') e' he'
        have hremoved : Inv (t.removed e'.timerId e' (kept ++ rest)) :=
          h.removed he' (by rw [hinterval]; exact h.without hlist)
        have honce' : ∀ i ∈ unusedIds, ∀ e'',
            (t.removed e'.timerId e' (kept ++ rest)).timerToEntries i = some e'' → e''.once = true :=
          fun i hi e'' hi' => honce i hi e'' (Timer.removed_sub hi').2
        have hlist' : (t.removed e'.timerId e' (kept ++ rest)).list interval = kept ++ rest := by
          rw [← hinterval]
          exact list_removed
        have hgone : (t.removed e'.timerId e' (kept ++ rest)).timerToEntries e'.timerId = none := by
          rw [Timer.removed_timerToEntries, Function.update_self]
        rw [eraseLoop_removed (not_not.1 hmem') hfired hinterval]
        rcases List.mem_cons.1 he with rfl | he
        · split
          · exact hgone
          · refine (hremoved.eraseLoop_keeps (P := fun q => q.timerToEntries e.timerId = none)
              (fun q i e'' l _ _ _ hq => ?_) hgone honce' hlist').2
            rw [Timer.removed_timerToEntries]
            by_cases hi : e.timerId = i
            · rw [hi, Function.update_self]
            · rw [Function.update_of_ne hi, hq]
        · split
          · next hnil =>
              rw [(List.append_eq_nil_iff.1 hnil).2] at he
              cases he
          · exact ih hremoved honce' hlist' he

/-- After `OnTimer` has returned, the one-shot entries that fired are not in the tables. -/
theorem Inv.onTimerEnd_gone {t : Timer} (h : Inv t) {fd : Nat} {interval : BitVec 32} {ids : List Id}
    (hf : t.firing = some ⟨fd, interval, [], ids⟩) {i : Id} {e : Entry}
    (he : t.timerToEntries i = some e) (hinterval : e.interval = interval)
    (hmem : e.timerId ∈ ids) : t.onTimerEnd.timerToEntries i = none := by
  obtain ⟨hid, hlisted⟩ := h.entry i e he
  have hdone : Inv { t with firing := none } :=
    h.default rfl (fun _ => rfl) (fun _ _ hfd => hfd) rfl rfl fun f hf' => by cases hf'
  have hne : ids ≠ [] := List.ne_nil_of_mem hmem
  have hlookup : (Timer.setList { t with firing := none } interval
      (Timer.list { t with firing := none } interval)).list interval = [] ++ t.list interval :=
    Timer.list_setList_self { t with firing := none } interval interval
  rw [Timer.onTimerEnd, hf]
  simp only [if_neg hne]
  rw [← hid, Timer.eraseUnusedTimerId]
  refine (hdone.lookup interval).eraseLoop_gone (fun j hj e' he' => ?_) hlookup ?_ hmem
  · refine h.fired _ hf j ?_ e' he'
    rw [Firing.onceIds]
    exact List.mem_append_left _ hj
  · rw [← hinterval]
    exact hlisted

/-! ## Calls and registrations -/

variable {l : Loop} {e : Entry}

namespace Loop

/-- How often the callback of an entry has been called. -/
def callsOf (l : Loop) (e : Entry) : Nat := (l.calls.map (·.entry)).count e

/-- How often `Register` has made this very entry. -/
def registrationsOf (l : Loop) (e : Entry) : Nat := (l.registered.map (·.1)).count e

def Live (l : Loop) (e : Entry) : Prop := l.timer.timerToEntries e.timerId = some e

instance (l : Loop) (e : Entry) : Decidable (l.Live e) := inferInstanceAs (Decidable (_ = _))

/-- `OnTimer` is going to call the entry. -/
def Pending (l : Loop) (e : Entry) : Prop :=
  ∃ f ∈ l.timer.firing, e ∈ f.entryList ∧ e.timerFd = f.timerFd

/-- There may be a call to come. -/
def Due (l : Loop) (e : Entry) : Prop :=
  l.Pending e ∨ l.Live e ∧ ∀ f ∈ l.timer.firing, e.timerFd ≠ f.timerFd

end Loop

structure Counted (l : Loop) : Prop extends Timely l where
  nodup : ∀ f ∈ l.timer.firing, f.entryList.Nodup
  /-- An entry on the descriptor that is firing has been called, or is going to be. -/
  passed : ∀ f ∈ l.timer.firing, ∀ e, l.Live e → e.once = true → e.timerFd = f.timerFd →
    e.interval = f.interval ∧ (e ∈ f.entryList ∨ e.timerId ∈ f.onceIdsUnused)
  calls_le : ∀ e, e.once = true → l.callsOf e ≤ l.registrationsOf e
  calls_lt : ∀ e, e.once = true → l.Due e → l.callsOf e < l.registrationsOf e

theorem Counted.start (now : Nat) : Counted (Loop.start now) where
  toTimely := Timely.start now
  nodup f hf := by cases hf
  passed f hf := by cases hf
  calls_le _ _ := le_rfl
  calls_lt e _ hdue := by
    rcases hdue with ⟨f, hf, -⟩ | ⟨hlive, -⟩
    · cases hf
    · cases hlive

/-- A step that neither calls nor registers, and makes nothing due. -/
theorem Counted.quiet (h : Counted l) {l' : Loop} (htimely : Timely l')
    (hcalls : l'.calls = l.calls) (hregistered : l'.registered = l.registered)
    (hlive : ∀ e, l'.Live e → l.Live e) (hfiring : l'.timer.firing = l.timer.firing) :
    Counted l' where
  toTimely := htimely
  nodup f hf := h.nodup f (hfiring ▸ hf)
  passed f hf e he := h.passed f (hfiring ▸ hf) e (hlive e he)
  calls_le e honce := by
    rw [Loop.callsOf, Loop.registrationsOf, hcalls, hregistered]
    exact h.calls_le e honce
  calls_lt e honce hdue := by
    rw [Loop.callsOf, Loop.registrationsOf, hcalls, hregistered]
    refine h.calls_lt e honce ?_
    rw [Loop.Due, Loop.Pending, hfiring] at hdue
    exact hdue.imp_right fun hlast => ⟨hlive e hlast.1, hlast.2⟩

theorem Counted.register (h : Counted l) {interval : BitVec 32} {once : Bool} {create : Option Nat}
    (hpossible : (Tick.register interval once create).Possible l) :
    Counted (l.register interval once create) := by
  have htimely := h.toTimely.register hpossible
  obtain ⟨hcreate, hlive, -⟩ := hpossible
  rcases h.inv.register_entry (fun fd hfd => (hcreate fd hfd).1) hlive with ⟨hrun, hmakes⟩ |
    ⟨i, t, fd, hrun, hfree, hentries, hfiring, hfd⟩
  · have hnone : l.timer.timerToEntries dealFailed = none := by
      cases hentry : l.timer.timerToEntries dealFailed with
      | none => rfl
      | some e => exact absurd rfl (h.inv.valid _ e hentry).failed
    have hsame : l.register interval once create = l := by
      rw [Loop.register, hrun]
      simp only [hmakes, Option.bind_some, hnone, Option.elim_none]
    rw [hsame]
    exact h
  · have hentry : t.timerToEntries i = some ⟨i, interval, once, fd⟩ := by
      rw [hentries, Function.update_self]
    have htimer : (l.register interval once create).timer = t := by rw [Loop.register, hrun]
    have hcalls : (l.register interval once create).calls = l.calls := by rw [Loop.register, hrun]
    have hregistered : (l.register interval once create).registered =
        (⟨i, interval, once, fd⟩, l.now) :: l.registered := by
      rw [Loop.register, hrun]
      simp only [Option.bind_some, hentry, Option.elim_some]
    have hlive : ∀ e, (l.register interval once create).Live e →
        e = ⟨i, interval, once, fd⟩ ∨ l.Live e := by
      intro e he
      rw [Loop.Live, htimer, hentries] at he
      by_cases hi : e.timerId = i
      · rw [hi, Function.update_self] at he
        exact Or.inl (Option.some.inj he).symm
      · rw [Function.update_of_ne hi] at he
        exact Or.inr he
    -- a one-shot entry is on a descriptor of its own
    have hmade : once = true → ∀ f ∈ l.timer.firing, fd ≠ f.timerFd := by
      intro honce f hf heq
      rcases hfd with hmakes | ⟨-, hfalse, -⟩
      · obtain ⟨rest, hrest⟩ := h.head f hf
        refine (hcreate fd (Timer.makes_mem hmakes)).2 ?_
        rw [hrest, heq]
        exact List.mem_cons_self
      · exact Bool.false_ne_true (hfalse.symm.trans honce)
    have hgrown : ∀ e, l.registrationsOf e ≤ (l.register interval once create).registrationsOf e := by
      intro e
      rw [Loop.registrationsOf, Loop.registrationsOf, hregistered, List.map_cons]
      exact List.count_le_count_cons
    have hcallsOf : ∀ e, (l.register interval once create).callsOf e = l.callsOf e := by
      intro e
      rw [Loop.callsOf, hcalls, Loop.callsOf]
    refine ⟨htimely, fun f hf => ?_, fun f hf e he honce hefd => ?_, fun e honce => ?_,
      fun e honce hdue => ?_⟩
    · rw [htimer, hfiring] at hf
      exact h.nodup f hf
    · rw [htimer, hfiring] at hf
      rcases hlive e he with rfl | he
      · exact absurd hefd (hmade honce f hf)
      · exact h.passed f hf e he honce hefd
    · rw [hcallsOf]
      exact (h.calls_le e honce).trans (hgrown e)
    · rw [hcallsOf]
      rw [Loop.Due, Loop.Pending, htimer, hfiring] at hdue
      rcases hdue with hpending | ⟨he, hidle⟩
      · exact (h.calls_lt e honce (Or.inl hpending)).trans_le (hgrown e)
      · rcases hlive e he with rfl | he
        · have hle := h.calls_le _ honce
          rw [Loop.registrationsOf, hregistered, List.map_cons, List.count_cons_self]
          exact Nat.lt_succ_of_le hle
        · exact (h.calls_lt e honce (Or.inr ⟨he, hidle⟩)).trans_le (hgrown e)

theorem Counted.fire (h : Counted l) {fd : Nat} (hidle : l.timer.firing = none)
    (htimely : Timely (l.fire fd)) : Counted (l.fire fd) := by
  have hentries := Timer.onTimer_timerToEntries l.timer fd
  have hfiring := Timer.onTimer_firing hidle fd
  refine ⟨htimely, fun f hf => ?_, fun f hf e he honce hefd => ?_, h.calls_le,
    fun e honce hdue => h.calls_lt e honce (Or.inr ⟨?_, fun f hf => ?_⟩)⟩
  · rw [Loop.fire, hfiring] at hf
    obtain rfl := Option.some.inj hf
    exact (h.inv.nodup _).of_map
  · rw [Loop.fire, hfiring] at hf
    obtain rfl := Option.some.inj hf
    rw [Loop.Live, Loop.fire, hentries] at he
    change e.timerFd = fd at hefd
    have htimers := h.inv.timers _ e he
    rw [hefd] at htimers
    show e.interval = (l.timer.timers fd).getD 0 ∧ _
    rw [htimers]
    exact ⟨rfl, Or.inl (h.inv.entry _ e he).2⟩
  · rcases hdue with ⟨f, hf, hmem, -⟩ | ⟨hlive, -⟩
    · rw [Loop.fire, hfiring] at hf
      obtain rfl := Option.some.inj hf
      exact (h.inv.listed _ e hmem).2
    · rwa [Loop.Live, Loop.fire, hentries] at hlive
  · rw [hidle] at hf
    cases hf

theorem Counted.timeOut (h : Counted l) : Counted l.timeOut := by
  have htimely := h.toTimely.timeOut
  rcases l.timeOut_cases with hsame | ⟨fd, rest, -, hidle, ⟨-, hrun⟩ | ⟨-, hrun⟩⟩
  · rw [hsame]
    exact h
  · rw [hrun] at htimely ⊢
    exact h.quiet htimely rfl rfl (fun _ he => he) rfl
  · rw [hrun] at htimely ⊢
    exact h.fire hidle htimely

theorem Counted.onTimerNext (h : Counted l) : Counted l.onTimerNext := by
  have htimely := h.toTimely.onTimerNext
  rcases l.onTimerNext_cases with hsame | ⟨fd, interval, ptr, rest, ids, hf, hrun⟩
  · rw [hsame]
    exact h
  · have hfiring := Timer.onTimerNext_firing hf
    have hnodup := h.nodup _ hf
    rw [List.nodup_cons] at hnodup
    have hlive : ∀ e, l.onTimerNext.Live e → l.Live e := by
      intro e he
      rw [hrun, Loop.Live, Timer.onTimerNext_timerToEntries] at he
      exact he
    have hpending : ∀ e, l.onTimerNext.Pending e → e ∈ rest ∧ e.timerFd = fd := by
      rintro e ⟨f, hf', hmem⟩
      rw [hrun, hfiring] at hf'
      obtain rfl := Option.some.inj hf'
      exact hmem
    have hdue : ∀ e, l.onTimerNext.Due e → l.Due e ∧ (e = ptr → ptr.timerFd ≠ fd) := by
      rintro e (hp | ⟨he, hidle⟩)
      · obtain ⟨hmem, hefd⟩ := hpending e hp
        refine ⟨Or.inl ⟨_, hf, List.mem_cons_of_mem _ hmem, hefd⟩, fun heq => ?_⟩
        exact absurd (heq ▸ hmem) hnodup.1
      · have hne : e.timerFd ≠ fd := by
          rw [hrun] at hidle
          exact hidle _ hfiring
        refine ⟨Or.inr ⟨hlive e he, fun f hf' => ?_⟩, fun heq => heq ▸ hne⟩
        rw [hf] at hf'
        obtain rfl := Option.some.inj hf'
        exact hne
    have hcalls : ∀ e, l.onTimerNext.callsOf e =
        l.callsOf e + if l.Calls fd ptr ∧ ptr = e then 1 else 0 := by
      intro e
      rw [hrun, Loop.callsOf, Loop.callsOf]
      by_cases hcall : l.Calls fd ptr
      · rw [if_pos hcall, List.map_cons, List.count_cons]
        simp [hcall]
      · rw [if_neg hcall, if_neg fun hboth => hcall hboth.1]
        rfl
    have hregistrations : ∀ e, l.onTimerNext.registrationsOf e = l.registrationsOf e := by
      intro e
      rw [hrun]
      rfl
    refine ⟨htimely, fun f hf' => ?_, fun f hf' e he honce hefd => ?_, fun e honce => ?_,
      fun e honce hd => ?_⟩
    · rw [hrun, hfiring] at hf'
      obtain rfl := Option.some.inj hf'
      exact hnodup.2
    · rw [hrun, hfiring] at hf'
      obtain rfl := Option.some.inj hf'
      obtain ⟨hinterval, hwhere⟩ := h.passed _ hf e (hlive e he) honce hefd
      refine ⟨hinterval, ?_⟩
      change e ∈ rest ∨ e.timerId ∈ (if ptr.timerFd = fd ∧ ptr.once = true then _ else _)
      rcases hwhere with hmem | hmem
      · rcases List.mem_cons.1 hmem with rfl | hmem
        · rw [if_pos ⟨hefd, honce⟩]
          exact Or.inr (List.mem_append_right _ (List.mem_singleton_self _))
        · exact Or.inl hmem
      · right
        split
        · exact List.mem_append_left _ hmem
        · exact hmem
    · rw [hcalls, hregistrations]
      split
      · next hcalled =>
          obtain ⟨⟨hptr, -⟩, rfl⟩ := hcalled
          exact h.calls_lt ptr honce (Or.inl ⟨_, hf, List.mem_cons_self, hptr⟩)
      · exact h.calls_le e honce
    · obtain ⟨hbefore, hother⟩ := hdue e hd
      have hnot : ¬ (l.Calls fd ptr ∧ ptr = e) := fun hboth => hother hboth.2.symm hboth.1.1
      rw [hcalls, hregistrations, if_neg hnot]
      exact h.calls_lt e honce hbefore

theorem Counted.onTimerEnd (h : Counted l) : Counted l.onTimerEnd := by
  have htimely := h.toTimely.onTimerEnd
  rcases l.onTimerEnd_cases with hsame | ⟨fd, interval, ids, hf, hrun⟩
  · rw [hsame]
    exact h
  · have hnone := Timer.onTimerEnd_firing hf
    rw [hrun] at htimely ⊢
    refine ⟨htimely, fun f hf' => ?_, fun f hf' => ?_, h.calls_le, fun e honce hdue =>
      h.calls_lt e honce ?_⟩
    · rw [hnone] at hf'
      cases hf'
    · rw [hnone] at hf'
      cases hf'
    · rcases hdue with ⟨f, hf', -⟩ | ⟨he, -⟩
      · rw [hnone] at hf'
        cases hf'
      · have hlive : l.Live e := Timer.onTimerEnd_sub h.inv he
        refine Or.inr ⟨hlive, fun f hf' hefd => ?_⟩
        -- it would have been erased
        obtain ⟨hinterval, hwhere⟩ := h.passed f hf' e hlive honce hefd
        rw [hf] at hf'
        obtain rfl := Option.some.inj hf'
        rcases hwhere with hmem | hmem
        · cases hmem
        · cases he.symm.trans (h.inv.onTimerEnd_gone hf hlive hinterval hmem)

/-! ## Runs -/

theorem Counted.step (h : Counted l) (tick : Tick) (hpossible : tick.Possible l) :
    Counted (l.step tick) := by
  have htimely := h.toTimely.step tick hpossible
  cases tick with
  | elapse n => exact h.quiet htimely rfl rfl (fun _ he => he) rfl
  | register interval once create => exact h.register hpossible
  | unregister i =>
      exact h.quiet htimely rfl rfl (fun _ he => Timer.unregister_sub h.inv i he)
        (Timer.unregister_firing h.inv i)
  | switchOff => exact h.quiet htimely rfl rfl (fun _ he => he) rfl
  | runLoop =>
      change Timely l.runLoop at htimely
      show Counted l.runLoop
      unfold Loop.runLoop at htimely ⊢
      split
      · next hround =>
          rw [if_pos hround] at htimely
          exact h.quiet htimely rfl rfl (fun _ he => he) rfl
      · exact h
  | polling epollEvents =>
      change Timely (l.polling epollEvents) at htimely
      show Counted (l.polling epollEvents)
      unfold Loop.polling at htimely ⊢
      split
      · next hwaiting =>
          rw [if_pos hwaiting] at htimely
          exact h.quiet htimely rfl rfl (fun _ he => he) rfl
      · exact h
  | timeOut => exact h.timeOut
  | onTimerNext => exact h.onTimerNext
  | onTimerEnd => exact h.onTimerEnd

theorem Counted.run {now : Nat} {ticks : List Tick}
    (hticks : Along (fun l tick => tick.Possible l) Loop.step (Loop.start now) ticks) :
    Counted ((Loop.start now).run ticks) :=
  hticks.invariant (I := Counted) (fun _ tick hpossible h => h.step tick hpossible)
    (Counted.start now)

/-- **A one-shot timer fires once.** In every run its callback is called no more often than
`Register` has made the entry. -/
theorem fires_once (now : Nat) (ticks : List Tick)
    (hticks : Along (fun l tick => tick.Possible l) Loop.step (Loop.start now) ticks) (e : Entry)
    (honce : e.once = true) :
    ((Loop.start now).run ticks).callsOf e ≤ ((Loop.start now).run ticks).registrationsOf e :=
  (Counted.run hticks).calls_le e honce

/-- A one-shot timer fires and unregisters itself, and the loop looks again. -/
def selfUnregistering : List Tick :=
  [.register 100 true (some 7), .elapse 250000000, .runLoop, .polling [7, 7], .timeOut, .onTimerNext,
    .unregister 1, .onTimerEnd, .timeOut, .runLoop, .polling [7], .timeOut, .onTimerNext]

/-- The timer of `selfUnregistering` has been registered. -/
def oneShot : Loop := { Loop.start 3000000000 with
  timer := Timer.addEntry { Timer.new with
    handlers := {7}
    timers := Function.update Timer.new.timers 7 (some 100) } ⟨1, 100, true, 7⟩
  timerFds := Function.update (Loop.start 3000000000).timerFds 7 (.initialized 3000000000 100 true)
  registered := [(⟨1, 100, true, 7⟩, 3000000000)] }

theorem register_oneShot : (Loop.start 3000000000).register 100 true (some 7) = oneShot := by
  have hshare : (if true = true then none else Timer.new.getTimerFd 100) = none := rfl
  have hrun := Timer.register_new 7 hshare rfl
  have htimer : (Loop.start 3000000000).timer = Timer.new := rfl
  rw [Loop.register, htimer, hrun]
  rfl

theorem selfUnregistering_possible :
    Along (fun l tick => tick.Possible l) Loop.step (Loop.start 3000000000) selfUnregistering := by
  have hlive : Timer.new.live < 2 ^ 32 - 3 := live_le_two fun i hi => by cases hi
  have hreuses : ¬ (Op.register 100 true (some 7)).Reuses Timer.new := by
    rintro ⟨hfalse, -⟩
    cases hfalse
  exact ⟨⟨fun fd _ => ⟨Finset.notMem_empty fd, List.not_mem_nil⟩, hlive, hreuses⟩, trivial, trivial,
    trivial, trivial, trivial, trivial, trivial, trivial, trivial, trivial, trivial, trivial, trivial⟩

theorem fires_once_unregistering :
    ((Loop.start 3000000000).run selfUnregistering).calls = [⟨⟨1, 100, true, 7⟩, 3250000000, 1⟩] ∧
      ((Loop.start 3000000000).run selfUnregistering).callsOf ⟨1, 100, true, 7⟩ ≤
        ((Loop.start 3000000000).run selfUnregistering).registrationsOf ⟨1, 100, true, 7⟩ := by
  refine ⟨?_, fires_once 3000000000 selfUnregistering selfUnregistering_possible ⟨1, 100, true, 7⟩ rfl⟩
  rw [Loop.run, selfUnregistering, List.foldl_cons, Loop.step, register_oneShot]
  decide +kernel

/-! ## None is passed over -/

/-- `OnTimer` has called, of the entries it has copied, those on the descriptor that it has gone
past. -/
structure Passing (l : Loop) (fd : Nat) (copied : List Entry) (called : List Entry) : Prop where
  timely : Timely l
  firing : ∃ interval past rest ids, l.timer.firing = some ⟨fd, interval, rest, ids⟩ ∧
    copied = past ++ rest ∧
    l.calls.map (·.entry) = (past.filter fun e => e.timerFd = fd).reverse ++ called

theorem Passing.quiet {fd : Nat} {copied called : List Entry} (h : Passing l fd copied called)
    {l' : Loop} (htimely : Timely l') (hfiring : l'.timer.firing = l.timer.firing)
    (hcalls : l'.calls = l.calls) : Passing l' fd copied called where
  timely := htimely
  firing := by
    rw [hfiring, hcalls]
    exact h.firing

theorem Passing.step {fd : Nat} {copied called : List Entry} (h : Passing l fd copied called)
    {tick : Tick} (hpossible : tick.Possible l) (hswitch : l.switch = true)
    (hnotEnd : tick ≠ .onTimerEnd) : Passing (l.step tick) fd copied called := by
  have htimely := h.timely.step tick hpossible
  cases tick with
  | elapse n => exact h.quiet htimely rfl rfl
  | register interval once create =>
      obtain ⟨hcreate, hlive, -⟩ := hpossible
      refine h.quiet htimely ?_ rfl
      show (l.timer.register interval once create).2.firing = _
      rcases h.timely.inv.register_entry (fun fd hfd => (hcreate fd hfd).1) hlive with ⟨hrun, -⟩ |
        ⟨i, t, fd', hrun, -, -, hfiring, -⟩
      · rw [hrun]
      · rw [hrun]
        exact hfiring
  | unregister i => exact h.quiet htimely (Timer.unregister_firing h.timely.inv i) rfl
  | switchOff => exact h.quiet htimely rfl rfl
  | runLoop =>
      refine h.quiet htimely ?_ ?_
      · show l.runLoop.timer.firing = _
        unfold Loop.runLoop
        split <;> rfl
      · show l.runLoop.calls = _
        unfold Loop.runLoop
        split <;> rfl
  | polling epollEvents =>
      refine h.quiet htimely ?_ ?_
      · show (l.polling epollEvents).timer.firing = _
        unfold Loop.polling
        split <;> rfl
      · show (l.polling epollEvents).calls = _
        unfold Loop.polling
        split <;> rfl
  | timeOut =>
      obtain ⟨interval, past, rest, ids, hf, -⟩ := h.firing
      rcases l.timeOut_cases with hsame | ⟨_, _, -, hidle, -⟩
      · show Passing l.timeOut fd copied called
        rw [hsame]
        exact h
      · cases hf.symm.trans hidle
  | onTimerNext =>
      obtain ⟨interval, past, rest, ids, hf, hcopied, hcalled⟩ := h.firing
      refine ⟨htimely, ?_⟩
      show ∃ interval past rest ids, l.onTimerNext.timer.firing = _ ∧ _
      rcases l.onTimerNext_cases with hsame | ⟨fd', interval', ptr, rest', ids', hf', hrun⟩
      · rw [Loop.step, hsame]
        exact ⟨interval, past, rest, ids, hf, hcopied, hcalled⟩
      · cases hf.symm.trans hf'
        rw [Loop.step, hrun]
        refine ⟨interval, past ++ [ptr], rest', _, Timer.onTimerNext_firing hf,
          by rw [hcopied, List.append_assoc]; rfl, ?_⟩
        dsimp only
        rw [List.filter_append, List.reverse_append, List.append_assoc, ← hcalled]
        by_cases hfd : ptr.timerFd = fd
        · rw [if_pos ⟨hfd, hswitch⟩, List.filter_cons_of_pos (by simpa using hfd)]
          rfl
        · rw [if_neg fun hcalls => hfd hcalls.1, List.filter_cons_of_neg (by simpa using hfd)]
          rfl
  | onTimerEnd => exact absurd rfl hnotEnd

end CUtils.Timers
