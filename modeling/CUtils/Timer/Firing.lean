import CUtils.Timer.EventLoop

/-!
# Callbacks come in time

A callback is called because its descriptor had something to read, and what there is to read is
counted from the registration that made the descriptor (`Armed`). So the callbacks of a timer are
never early, however the loop, the other threads and the callbacks take turns, and whatever
`epoll_wait` reports: the `n`-th comes no sooner than `n` intervals after that registration
(`never_early`).
-/

namespace CUtils.Timers

open StateRun

/-! ## What the steps do to the tables -/

namespace Timer

variable {t : Timer} {fd : Nat} {interval : BitVec 32}

theorem removed_firing (t : Timer) (i : Id) (e : Entry) (l : List Entry) :
    (t.removed i e l).firing = t.firing := by
  show (Timer.dropIfEmpty _ _).firing = _
  rw [dropIfEmpty_firing]
  show Timer.firing (if _ then _ else _) = _
  split <;> rfl

theorem removed_sub {i : Id} {e : Entry} {l : List Entry} {j : Id} {e' : Entry}
    (h : (t.removed i e l).timerToEntries j = some e') :
    j ≠ i ∧ t.timerToEntries j = some e' := by
  rw [removed_timerToEntries] at h
  by_cases hji : j = i
  · rw [hji, Function.update_self] at h
    cases h
  · rw [Function.update_of_ne hji] at h
    exact ⟨hji, h⟩

theorem onTimer_timerToEntries (t : Timer) (fd : Nat) :
    (t.onTimer fd).timerToEntries = t.timerToEntries := by
  unfold onTimer
  split <;> rfl

theorem onTimer_firing (h : t.firing = none) (fd : Nat) :
    (t.onTimer fd).firing =
      some ⟨fd, (t.timers fd).getD 0, t.list ((t.timers fd).getD 0), []⟩ := by
  rw [onTimer, h]

theorem onTimerNext_firing {ptr : Entry} {rest : List Entry} {ids : List Id}
    (h : t.firing = some ⟨fd, interval, ptr :: rest, ids⟩) :
    t.onTimerNext.firing = some ⟨fd, interval, rest,
      if ptr.timerFd = fd ∧ ptr.once = true then ids ++ [ptr.timerId] else ids⟩ := by
  rw [onTimerNext, h]

theorem unregister_firing (h : Inv t) (i : Id) : (t.unregister i).firing = t.firing := by
  cases he : t.timerToEntries i with
  | none => rw [unregister, he]
  | some e => rw [h.unregister_eq he, removed_firing]

theorem unregister_sub (h : Inv t) (i : Id) {j : Id} {e : Entry}
    (hj : (t.unregister i).timerToEntries j = some e) : t.timerToEntries j = some e := by
  cases he : t.timerToEntries i with
  | none =>
      rw [unregister, he] at hj
      exact hj
  | some e' =>
      rw [h.unregister_eq he] at hj
      exact (removed_sub hj).2

theorem onTimerEnd_sub (h : Inv t) {j : Id} {e : Entry}
    (hj : t.onTimerEnd.timerToEntries j = some e) : t.timerToEntries j = some e := by
  have hkeeps := h.onTimerEnd_keeps
    (P := fun q => ∀ j e, q.timerToEntries j = some e → t.timerToEntries j = some e)
    (fun q i e' l _ _ _ hq j e hj => hq j e (removed_sub hj).2)
    (fun q q' hentries _ hq j e hj => hq j e (by rw [← hentries]; exact hj)) (fun _ _ hj => hj)
  exact hkeeps.2 j e hj

/-- The loop of `EraseUnusedTimerId` does not begin to fire. -/
theorem eraseLoop_firing {unusedIds : List Id} (kept rest : List Entry) (t : Timer) :
    (eraseLoop interval unusedIds t kept rest).firing = t.firing := by
  induction rest generalizing t kept with
  | nil => rfl
  | cons e rest ih =>
      rw [eraseLoop]
      split
      · exact ih _ t
      · dsimp only
        split
        · exact dropIfEmpty_firing _ _
        · exact ih kept _

theorem onTimerEnd_firing {ids : List Id} (h : t.firing = some ⟨fd, interval, [], ids⟩) :
    t.onTimerEnd.firing = none := by
  rw [onTimerEnd, h]
  dsimp only
  split
  · rfl
  · exact eraseLoop_firing _ _ _

end Timer

theorem Timer.makes_mem {t : Timer} {interval : BitVec 32} {once : Bool} {create : Option Nat} {fd : Nat}
    (h : t.makes interval once create = some fd) : fd ∈ create := by
  unfold Timer.makes at h
  split at h
  · cases h
  · exact h

/-- `Register` changes nothing, or a new entry comes: on a descriptor it has made, or on the one of
a repeating entry of its interval. -/
theorem Inv.register_entry {t : Timer} (h : Inv t) {interval : BitVec 32} {once : Bool}
    {create : Option Nat} (hcreate : ∀ fd ∈ create, fd ∉ t.handlers) (hlive : t.live < 2 ^ 32 - 3) :
    (t.register interval once create = (some dealFailed, t) ∧ t.makes interval once create = none) ∨
      ∃ i t' fd, t.register interval once create = (some i, t') ∧ t.timerToEntries i = none ∧
        t'.timerToEntries = Function.update t.timerToEntries i (some ⟨i, interval, once, fd⟩) ∧
        t'.firing = t.firing ∧
        (t.makes interval once create = some fd ∨
          t.makes interval once create = none ∧ once = false ∧
            ∃ j e, t.timerToEntries j = some e ∧ e.timerFd = fd ∧ e.interval = interval ∧
              e.once = false) := by
  obtain ⟨i, hnext, hvalid, hfree⟩ := t.nextId_spec h.counter hlive
  unfold Timer.register Timer.makes
  cases hshare : if once then none else t.getTimerFd interval with
  | none =>
      cases create with
      | none => exact Or.inl ⟨rfl, rfl⟩
      | some fd =>
          set q : Timer := { t with
            handlers := insert fd t.handlers
            timers := Function.update t.timers fd (some interval) } with hq
          have hcongr : q.nextId = t.nextId := Timer.nextId_congr rfl rfl
          refine Or.inr ⟨i, q.addEntry ⟨i, interval, once, fd⟩, fd, ?_, hfree, rfl, rfl, Or.inl rfl⟩
          simp only [Timer.doRegister]
          rw [← hq, hcongr, hnext]
  | some fd =>
      refine Or.inr ⟨i, t.addEntry ⟨i, interval, once, fd⟩, fd, by simp only [hnext], hfree, rfl, rfl,
        Or.inr ⟨rfl, ?_⟩⟩
      have honce : once = false := by
        cases once with
        | true => cases hshare
        | false => rfl
      subst honce
      simp only [Bool.false_eq_true, if_false, Timer.getTimerFd] at hshare
      cases hl : t.intervalToTimers interval with
      | none =>
          rw [hl] at hshare
          cases hshare
      | some l =>
          rw [hl] at hshare
          obtain ⟨e, hfind, hefd⟩ := Option.map_eq_some_iff.1 hshare
          have hmem : e ∈ t.list interval := by
            rw [Timer.list, hl]
            exact List.mem_of_find?_eq_some hfind
          obtain ⟨hinterval, hentry⟩ := h.listed interval e hmem
          exact ⟨rfl, e.timerId, e, hentry, hefd, hinterval, by simpa using List.find?_some hfind⟩

/-! ## What the loop does -/

namespace Loop

/-- The state after a read that has found something. -/
def fire (l : Loop) (timerFd : Nat) : Loop := { l with
  timerFds := Function.update l.timerFds timerFd { l.timerFds timerFd with
    taken := (l.timerFds timerFd).expirations l.now
    reads := (l.timerFds timerFd).reads + 1 }
  timer := l.timer.onTimer timerFd }

/-- Whether the callback of the next entry is called. -/
def Calls (l : Loop) (timerFd : Nat) (ptr : Entry) : Prop := ptr.timerFd = timerFd ∧ l.switch = true

instance (l : Loop) (timerFd : Nat) (ptr : Entry) : Decidable (l.Calls timerFd ptr) :=
  inferInstanceAs (Decidable (_ ∧ _))

theorem timeOut_cases (l : Loop) :
    l.timeOut = l ∨ ∃ fd rest, l.taskQue = fd :: rest ∧ l.timer.firing = none ∧
      ((l.timerFds fd).expirations l.now = (l.timerFds fd).taken ∧
          l.timeOut = { l with taskQue := rest } ∨
        (l.timerFds fd).expirations l.now ≠ (l.timerFds fd).taken ∧ l.timeOut = l.fire fd) := by
  unfold timeOut
  split
  · next fd rest hque hidle =>
      refine Or.inr ⟨fd, rest, hque, hidle, ?_⟩
      dsimp only
      split
      · next hnothing => exact Or.inl ⟨hnothing, rfl⟩
      · next hsome => exact Or.inr ⟨hsome, rfl⟩
  · exact Or.inl rfl

theorem onTimerNext_cases (l : Loop) :
    l.onTimerNext = l ∨ ∃ fd interval ptr rest ids,
      l.timer.firing = some ⟨fd, interval, ptr :: rest, ids⟩ ∧
        l.onTimerNext = { l with
          timer := l.timer.onTimerNext
          calls := if l.Calls fd ptr then ⟨ptr, l.now, (l.timerFds fd).reads⟩ :: l.calls
            else l.calls } := by
  unfold onTimerNext
  split
  · next fd interval ptr rest ids hf => exact Or.inr ⟨fd, interval, ptr, rest, ids, hf, rfl⟩
  · exact Or.inl rfl

theorem onTimerEnd_cases (l : Loop) :
    l.onTimerEnd = l ∨ ∃ fd interval ids, l.timer.firing = some ⟨fd, interval, [], ids⟩ ∧
      l.onTimerEnd = { l with timer := l.timer.onTimerEnd, taskQue := l.taskQue.tail } := by
  unfold onTimerEnd
  split
  · next fd interval ids hf => exact Or.inr ⟨fd, interval, ids, hf, rfl⟩
  · exact Or.inl rfl

end Loop

/-! ## What a descriptor says about the clock -/

/-- The descriptor was set at `s`, and no more has been read from it than it has expired. -/
structure TimerFd.Runs (f : TimerFd) (now s : Nat) (interval : BitVec 32) (once : Bool) : Prop where
  value : f.value = s + nanosOf interval
  interval : f.interval = if once then 0 else nanosOf interval
  start : s ≤ now
  reads : f.reads ≤ f.taken
  taken : f.taken ≤ f.expirations now

namespace TimerFd

variable {f : TimerFd} {now s : Nat} {interval : BitVec 32} {once : Bool}

theorem expirations_mono (f : TimerFd) {now now' : Nat} (h : now ≤ now') :
    f.expirations now ≤ f.expirations now' := by
  unfold expirations
  by_cases hearly : f.value = 0 ∨ now < f.value
  · rw [if_pos hearly]
    exact Nat.zero_le _
  · have hlater : ¬ (f.value = 0 ∨ now' < f.value) := fun hor => hearly (hor.imp_right (by omega))
    rw [if_neg hearly, if_neg hlater]
    by_cases honce : f.interval = 0
    · rw [if_pos honce, if_pos honce]
    · rw [if_neg honce, if_neg honce]
      exact Nat.succ_le_succ (Nat.div_le_div_right (Nat.sub_le_sub_right h _))

theorem Runs.elapse (h : f.Runs now s interval once) {now' : Nat} (hle : now ≤ now') :
    f.Runs now' s interval once :=
  { h with
    start := h.start.trans hle
    taken := h.taken.trans (f.expirations_mono hle) }

theorem Runs.initialized (now : Nat) (interval : BitVec 32) (once : Bool) :
    (TimerFd.initialized now interval once).Runs now now interval once where
  value := by
    rw [TimerFd.initialized, Timespec.nanos_timeOutAt, Timespec.nanos_ofNanos]
  interval := Timespec.nanos_period interval once
  start := le_rfl
  reads := le_rfl
  taken := Nat.zero_le _

/-- A read that finds something takes all there is. -/
theorem Runs.read (h : f.Runs now s interval once) (hsome : f.expirations now ≠ f.taken) :
    { f with taken := f.expirations now, reads := f.reads + 1 }.Runs now s interval once where
  value := h.value
  interval := h.interval
  start := h.start
  reads := by
    have hreads := h.reads
    have htaken := h.taken
    show f.reads + 1 ≤ f.expirations now
    omega
  taken := le_rfl

/-- The reads that found something are no more than the intervals that have passed. -/
theorem Runs.on_time (h : f.Runs now s interval once) (hread : 1 ≤ f.reads) :
    s + f.reads * nanosOf interval ≤ now := by
  have hle := h.reads.trans h.taken
  have hvalue := h.value
  unfold expirations at hle
  by_cases hearly : f.value = 0 ∨ now < f.value
  · rw [if_pos hearly] at hle
    omega
  · rw [if_neg hearly] at hle
    by_cases hzero : f.interval = 0
    · rw [if_pos hzero] at hle
      have hone : f.reads = 1 := by omega
      rw [hone, Nat.one_mul]
      omega
    · rw [if_neg hzero] at hle
      have hperiod : f.interval = nanosOf interval := by
        have hinterval := h.interval
        cases once with
        | true => exact absurd hinterval hzero
        | false => exact hinterval
      have hmul : (f.reads - 1) * f.interval ≤ now - f.value :=
        (Nat.le_div_iff_mul_le (Nat.pos_of_ne_zero hzero)).1 (by omega)
      obtain ⟨k, hk⟩ := Nat.exists_eq_add_of_le hread
      rw [hk, Nat.add_sub_cancel_left, hperiod] at hmul
      rw [hk, Nat.add_mul, Nat.one_mul]
      omega

end TimerFd

/-! ## The invariant -/

variable {l l' : Loop} {e : Entry}

/-- The descriptor of the entry was made at `s`, by the registration of an entry like it. A one-shot
entry has made its own. -/
def Loop.Origin (l : Loop) (e : Entry) (s : Nat) : Prop :=
  ∃ first, (first, s) ∈ l.registered ∧ first.timerFd = e.timerFd ∧ first.interval = e.interval ∧
    first.once = e.once ∧ (e.once = true → first = e)

def Loop.Armed (l : Loop) (e : Entry) : Prop :=
  ∃ s, l.Origin e s ∧ (l.timerFds e.timerFd).Runs l.now s e.interval e.once

/-- The callback has not been called too soon. -/
def Loop.OnTime (l : Loop) (c : Call) : Prop :=
  ∃ s, l.Origin c.entry s ∧ 1 ≤ c.round ∧ s + c.round * nanosOf c.entry.interval ≤ c.time

structure Timely (l : Loop) : Prop where
  inv : Inv l.timer
  /-- `OnTimer` runs for the next of the handlers that were collected. -/
  head : ∀ f ∈ l.timer.firing, ∃ rest, l.taskQue = f.timerFd :: rest
  /-- While the loop waits it has no handlers left. -/
  idle : l.waiting = true → l.taskQue = []
  read : ∀ f ∈ l.timer.firing, 1 ≤ (l.timerFds f.timerFd).reads
  live : ∀ i e, l.timer.timerToEntries i = some e → l.Armed e
  pending : ∀ f ∈ l.timer.firing, ∀ e ∈ f.entryList, e.timerFd = f.timerFd → l.Armed e
  calls : ∀ c ∈ l.calls, l.OnTime c

theorem Loop.Origin.mono {s : Nat} (h : l.Origin e s)
    (hregistered : ∀ x ∈ l.registered, x ∈ l'.registered) : l'.Origin e s := by
  obtain ⟨first, hmem, hrest⟩ := h
  exact ⟨first, hregistered _ hmem, hrest⟩

theorem Loop.Armed.mono (h : l.Armed e) (hregistered : ∀ x ∈ l.registered, x ∈ l'.registered)
    (hruns : ∀ s, (l.timerFds e.timerFd).Runs l.now s e.interval e.once →
      (l'.timerFds e.timerFd).Runs l'.now s e.interval e.once) : l'.Armed e := by
  obtain ⟨s, horigin, hfd⟩ := h
  exact ⟨s, horigin.mono hregistered, hruns s hfd⟩

theorem Loop.OnTime.mono {c : Call} (h : l.OnTime c)
    (hregistered : ∀ x ∈ l.registered, x ∈ l'.registered) : l'.OnTime c := by
  obtain ⟨s, horigin, hround, htime⟩ := h
  exact ⟨s, horigin.mono hregistered, hround, htime⟩

theorem Timely.start (now : Nat) : Timely (Loop.start now) where
  inv := Inv.new
  head f hf := by cases hf
  idle hwaiting := by cases hwaiting
  read f hf := by cases hf
  live i e hi := by cases hi
  pending f hf := by cases hf
  calls c hc := by cases hc

/-- A step that takes entries away, or ends the firing, and leaves the clock alone. -/
theorem Timely.shrunk (h : Timely l) {t : Timer} {taskQue : List Nat} (hinv : Inv t)
    (hlive : ∀ i e, t.timerToEntries i = some e → l.timer.timerToEntries i = some e)
    (hfiring : ∀ f ∈ t.firing, f ∈ l.timer.firing ∧ taskQue = l.taskQue)
    (hidle : l.taskQue = [] → taskQue = []) :
    Timely { l with timer := t, taskQue := taskQue } where
  inv := hinv
  idle hwaiting := hidle (h.idle hwaiting)
  head f hf := by
    obtain ⟨hmem, hque⟩ := hfiring f hf
    exact hque ▸ h.head f hmem
  read f hf := h.read f (hfiring f hf).1
  live i e hi := h.live i e (hlive i e hi)
  pending f hf := h.pending f (hfiring f hf).1
  calls := h.calls

theorem Timely.unregister (h : Timely l) (i : Id) :
    Timely { l with timer := l.timer.unregister i } :=
  h.shrunk (h.inv.unregister i) (fun _ _ => Timer.unregister_sub h.inv i)
    (fun f hf => ⟨by rw [← Timer.unregister_firing h.inv i]; exact hf, rfl⟩) id

theorem Timely.onTimerEnd (h : Timely l) : Timely l.onTimerEnd := by
  rcases l.onTimerEnd_cases with hsame | ⟨fd, interval, ids, hf, hrun⟩
  · rw [hsame]
    exact h
  · rw [hrun]
    refine h.shrunk h.inv.onTimerEnd (fun _ _ => Timer.onTimerEnd_sub h.inv) (fun f hf' => ?_)
      fun hnil => by rw [hnil, List.tail_nil]
    rw [Timer.onTimerEnd_firing hf] at hf'
    cases hf'

theorem Timely.register (h : Timely l) {interval : BitVec 32} {once : Bool} {create : Option Nat}
    (hpossible : (Tick.register interval once create).Possible l) :
    Timely (l.register interval once create) := by
  obtain ⟨hcreate, hlive, hreuses⟩ := hpossible
  have hhandlers : ∀ fd ∈ create, fd ∉ l.timer.handlers := fun fd hfd => (hcreate fd hfd).1
  have hinv := h.inv.step (.register interval once create) ⟨⟨hhandlers, hlive⟩, hreuses⟩
  change Inv (l.timer.register interval once create).2 at hinv
  unfold Loop.register
  rcases h.inv.register_entry hhandlers hlive with ⟨hrun, hmakes⟩ |
    ⟨i, t, fd, hrun, hfree, hentries, hfiring, hfd⟩
  · rw [hrun] at hinv ⊢
    have hnone : l.timer.timerToEntries dealFailed = none := by
      cases hentry : l.timer.timerToEntries dealFailed with
      | none => rfl
      | some e => exact absurd rfl (h.inv.valid _ e hentry).failed
    simp only [hmakes, Option.bind_some, hnone, Option.elim_none]
    exact h
  · rw [hrun] at hinv ⊢
    have hentry : t.timerToEntries i = some ⟨i, interval, once, fd⟩ := by
      rw [hentries, Function.update_self]
    simp only [Option.bind_some, hentry, Option.elim_some]
    set fds := (l.timer.makes interval once create).elim l.timerFds fun timerFd =>
      Function.update l.timerFds timerFd (.initialized l.now interval once) with hfds
    have hregistered : ∀ x ∈ l.registered, x ∈ (⟨i, interval, once, fd⟩, l.now) :: l.registered :=
      fun x hx => List.mem_cons_of_mem _ hx
    -- a descriptor that is made is new to what is known
    have hkept : ∀ fd', fd' ∈ l.timer.handlers ∨ fd' ∈ l.taskQue → fds fd' = l.timerFds fd' := by
      intro fd' hopen
      cases hmakes : l.timer.makes interval once create with
      | none => rw [hfds, hmakes, Option.elim_none]
      | some new =>
          obtain ⟨hhandler, hque⟩ := hcreate new (Timer.makes_mem hmakes)
          rw [hfds, hmakes, Option.elim_some, Function.update_of_ne]
          intro heq
          rw [heq] at hopen
          exact hopen.elim hhandler hque
    have hmono : ∀ e, l.Armed e → e.timerFd ∈ l.timer.handlers ∨ e.timerFd ∈ l.taskQue →
        Loop.Armed { l with
          timer := t
          timerFds := fds
          registered := (⟨i, interval, once, fd⟩, l.now) :: l.registered } e := by
      intro e harmed hopen
      refine harmed.mono hregistered fun s hruns => ?_
      show (fds e.timerFd).Runs l.now s e.interval e.once
      rw [hkept e.timerFd hopen]
      exact hruns
    have hque : ∀ f ∈ l.timer.firing, f.timerFd ∈ l.taskQue := by
      intro f hf
      obtain ⟨rest, hrest⟩ := h.head f hf
      rw [hrest]
      exact List.mem_cons_self
    refine ⟨hinv, fun f hf => h.head f (hfiring ▸ hf), h.idle, fun f hf => ?_, fun j e hj => ?_,
      fun f hf e he hefd => ?_, fun c hc => (h.calls c hc).mono hregistered⟩
    · rw [hfiring] at hf
      show 1 ≤ (fds f.timerFd).reads
      rw [hkept f.timerFd (Or.inr (hque f hf))]
      exact h.read f hf
    · change t.timerToEntries j = some e at hj
      rw [hentries] at hj
      by_cases hji : j = i
      · rw [hji, Function.update_self] at hj
        obtain rfl := Option.some.inj hj
        rcases hfd with hmakes | ⟨-, honce, k, e, hk, hefd, hinterval, hrepeats⟩
        · refine ⟨l.now, ⟨_, List.mem_cons_self, rfl, rfl, rfl, fun _ => rfl⟩, ?_⟩
          show (fds fd).Runs l.now l.now interval once
          rw [hfds, hmakes, Option.elim_some, Function.update_self]
          exact TimerFd.Runs.initialized l.now interval once
        · -- it shares the descriptor of `e`
          have hopen := h.inv.handled k e hk
          obtain ⟨s, ⟨first, hmem, hfirst, hfirstInterval, hfirstOnce, -⟩, hruns⟩ := h.live k e hk
          subst honce
          refine ⟨s, ⟨first, hregistered _ hmem, hfirst.trans hefd, hfirstInterval.trans hinterval,
            hfirstOnce.trans hrepeats, fun htrue => absurd htrue Bool.false_ne_true⟩, ?_⟩
          show (fds fd).Runs l.now s interval false
          rw [← hefd, hkept e.timerFd (Or.inl hopen), ← hinterval, ← hrepeats]
          exact hruns
      · rw [Function.update_of_ne hji] at hj
        exact hmono e (h.live j e hj) (Or.inl (h.inv.handled j e hj))
    · change f ∈ t.firing at hf
      rw [hfiring] at hf
      exact hmono e (h.pending f hf e he hefd) (Or.inr (hefd ▸ hque f hf))

theorem Timely.elapse (h : Timely l) (n : Nat) : Timely { l with now := l.now + n } where
  inv := h.inv
  head := h.head
  idle := h.idle
  read := h.read
  live i e hi := (h.live i e hi).mono (fun _ hx => hx) fun _ hruns =>
    hruns.elapse (Nat.le_add_right _ _)
  pending f hf e he hefd := (h.pending f hf e he hefd).mono (fun _ hx => hx) fun _ hruns =>
    hruns.elapse (Nat.le_add_right _ _)
  calls c hc := (h.calls c hc).mono fun _ hx => hx

/-- Reading a descriptor is a read for all the entries on it. -/
theorem Timely.fire (h : Timely l) {fd : Nat} {rest : List Nat} (hque : l.taskQue = fd :: rest)
    (hidle : l.timer.firing = none)
    (hsome : (l.timerFds fd).expirations l.now ≠ (l.timerFds fd).taken) : Timely (l.fire fd) := by
  have hfiring := Timer.onTimer_firing hidle fd
  have harmed : ∀ e, l.Armed e → (l.fire fd).Armed e := by
    intro e he
    refine he.mono (fun _ hx => hx) fun s hruns => ?_
    show (Function.update l.timerFds fd _ e.timerFd).Runs l.now s e.interval e.once
    by_cases hefd : e.timerFd = fd
    · rw [hefd] at hruns ⊢
      rw [Function.update_self]
      exact hruns.read hsome
    · rw [Function.update_of_ne hefd]
      exact hruns
  refine ⟨h.inv.onTimer fd, fun f hf => ?_, h.idle, fun f hf => ?_, fun i e hi => ?_,
    fun f hf e he _ => ?_, fun c hc => (h.calls c hc).mono fun _ hx => hx⟩
  · rw [Loop.fire, hfiring] at hf
    obtain rfl := Option.some.inj hf
    exact ⟨rest, hque⟩
  · rw [Loop.fire, hfiring] at hf
    obtain rfl := Option.some.inj hf
    show 1 ≤ (Function.update l.timerFds fd _ fd).reads
    rw [Function.update_self]
    exact Nat.le_add_left 1 _
  · rw [Loop.fire, Timer.onTimer_timerToEntries] at hi
    exact harmed e (h.live i e hi)
  · rw [Loop.fire, hfiring] at hf
    obtain rfl := Option.some.inj hf
    exact harmed e (h.live _ e (h.inv.listed _ e he).2)

theorem Timely.timeOut (h : Timely l) : Timely l.timeOut := by
  rcases l.timeOut_cases with hsame | ⟨fd, rest, hque, hidle, ⟨-, hrun⟩ | ⟨hsome, hrun⟩⟩
  · rw [hsame]
    exact h
  · rw [hrun]
    exact { h with
      head := fun f hf => by rw [hidle] at hf; cases hf
      idle := fun hwaiting => by cases hque.symm.trans (h.idle hwaiting) }
  · rw [hrun]
    exact h.fire hque hidle hsome

theorem Timely.onTimerNext (h : Timely l) : Timely l.onTimerNext := by
  rcases l.onTimerNext_cases with hsame | ⟨fd, interval, ptr, rest, ids, hf, hrun⟩
  · rw [hsame]
    exact h
  · have hfiring := Timer.onTimerNext_firing hf
    have hold : ∀ c ∈ l.calls, l.onTimerNext.OnTime c := fun c hc =>
      (h.calls c hc).mono fun x hx => by rw [hrun]; exact hx
    rw [hrun] at hold ⊢
    refine ⟨h.inv.onTimerNext, fun f hf' => ?_, h.idle, fun f hf' => ?_, fun i e hi => ?_,
      fun f hf' e he hefd => ?_, fun c hc => ?_⟩
    · rw [hfiring] at hf'
      obtain rfl := Option.some.inj hf'
      exact h.head ⟨fd, interval, ptr :: rest, ids⟩ hf
    · rw [hfiring] at hf'
      obtain rfl := Option.some.inj hf'
      exact h.read ⟨fd, interval, ptr :: rest, ids⟩ hf
    · rw [Timer.onTimerNext_timerToEntries] at hi
      exact h.live i e hi
    · rw [hfiring] at hf'
      obtain rfl := Option.some.inj hf'
      exact h.pending _ hf e (List.mem_cons_of_mem _ he) hefd
    · change c ∈ (if l.Calls fd ptr then _ else _) at hc
      split at hc
      · next hcalled =>
          rcases List.mem_cons.1 hc with rfl | hc
          · obtain ⟨s, horigin, hruns⟩ := h.pending _ hf ptr List.mem_cons_self hcalled.1
            have hread := h.read _ hf
            rw [hcalled.1] at hruns
            exact ⟨s, horigin, hread, hruns.on_time hread⟩
          · exact hold c hc
      · exact hold c hc

/-! ## Runs -/

theorem Timely.step (h : Timely l) (tick : Tick) (hpossible : tick.Possible l) :
    Timely (l.step tick) := by
  cases tick with
  | elapse n => exact h.elapse n
  | register interval once create => exact h.register hpossible
  | unregister i => exact h.unregister i
  | switchOff => exact { h with }
  | runLoop =>
      show Timely l.runLoop
      unfold Loop.runLoop
      split
      · next hround => exact { h with idle := fun _ => hround.2 }
      · exact h
  | polling epollEvents =>
      show Timely (l.polling epollEvents)
      unfold Loop.polling
      split
      · next hwaiting =>
          refine { h with
            head := fun f hf => ?_
            idle := fun hfalse => by cases hfalse }
          -- nothing was firing while the loop waited
          obtain ⟨rest, hrest⟩ := h.head f hf
          cases hrest.symm.trans (h.idle hwaiting)
      · exact h
  | timeOut => exact h.timeOut
  | onTimerNext => exact h.onTimerNext
  | onTimerEnd => exact h.onTimerEnd

theorem Timely.run {now : Nat} {ticks : List Tick}
    (hticks : Along (fun l tick => tick.Possible l) Loop.step (Loop.start now) ticks) :
    Timely ((Loop.start now).run ticks) :=
  hticks.invariant (I := Timely) (fun _ tick hpossible h => h.step tick hpossible) (Timely.start now)

end CUtils.Timers
