import CUtils.Sync.ThreadExit

/-!
# A request to exit is heeded

`exitPending_` is looked at only between two calls of `Run`. Once it is set it stays set as long as
there is a thread, so `Run` is called at most once more before the next `Start`, however the threads
are interleaved (`request_heeded`).
-/

namespace CUtils.ThreadEx

open Threads

variable {ι : Type}

/-- What a section has come to. -/
def Pc.result? : Pc ι → Option Result
  | .unlock _ r | .back _ r => some r
  | _ => none

/-- `ThreadStart` has looked at `exitPending_` and will call `Run`. -/
def Actor.decided (a : Actor ι) : Bool :=
  match a.stage, a.pc.result? with
  | .first, some (.flag pending) => !pending
  | .iterated _, some (.flag last) => !last
  | _, _ => false

namespace Actor

variable {a : Actor ι}

theorem decided_of_none (h : a.pc.result? = none) : a.decided = false := by
  unfold decided
  rw [h]
  split <;> first | rfl | rename_i heq; cases heq

/-- It is `ThreadStart` that goes on to call `Run`. -/
theorem stage_of_decided (h : a.decided = true) :
    a.pc.result? = some (.flag false) ∧ (a.stage = .first ∨ ∃ result, a.stage = .iterated result) := by
  unfold decided at h
  split at h
  · rename_i pending hstage hresult
    cases pending with
    | false => exact ⟨hresult, .inl hstage⟩
    | true => cases h
  · rename_i result last hstage hresult
    cases last with
    | false => exact ⟨hresult, .inr ⟨result, hstage⟩⟩
    | true => cases h
  · cases h

theorem working_of_decided (h : a.decided = true) : a.working = true := by
  obtain ⟨hresult, hstage⟩ := stage_of_decided h
  have hretired : a.pc.retired = false := by
    revert hresult
    cases a.pc with
    | unlock c r | back c r =>
        intro hresult
        obtain rfl : r = .flag false := Option.some.inj hresult
        cases c <;> rfl
    | _ => exact nofun
  rw [working, hretired]
  rcases hstage with hstage | ⟨result, hstage⟩ <;> rw [hstage] <;> rfl

end Actor

/-- The exit is pending, and `Run` will not have been called more than `n` times: a thread that is
about to call it is still to be counted. -/
structure Requested (n : Nat) (s : State ι) : Prop where
  exiting : s.exitPending = true ∨ s.running = false
  runs : s.runs ≤ n
  decided : ∀ t, (s.actors t).decided = true → s.runs < n

variable [DecidableEq ι] {n : Nat} {s s' : State ι} {t : ι}

namespace Requested

/-- Nobody comes to decide for `Run`. -/
theorem move {x : Actor ι} (h : Requested n s) (hactors : s'.actors = Function.update s.actors t x)
    (hexiting : s'.exitPending = true ∨ s'.running = false) (hruns : s'.runs = s.runs)
    (hx : x.decided = true → (s.actors t).decided = true) : Requested n s' where
  exiting := hexiting
  runs := by rw [hruns]; exact h.runs
  decided := by
    rw [hactors, hruns]
    exact forall_update (P := fun (_ : ι) (a : Actor ι) => a.decided = true → s.runs < n)
      (fun hd => h.decided t (hx hd)) fun u _ => h.decided u

/-- A thread that does not come out of a section. -/
theorem goto {q : State ι} {pc : Pc ι} (h : Requested n s) (hactors : q.actors = s.actors)
    (hexiting : q.exitPending = true ∨ q.running = false) (hruns : q.runs = s.runs)
    (hpc : pc.result? = none) : Requested n (q.goto t pc) := by
  refine h.move (t := t) (x := ⟨(q.actors t).stage, pc⟩) ?_ hexiting hruns fun hd => ?_
  · rw [State.goto, State.become, hactors]
  · rw [Actor.decided_of_none hpc] at hd
    cases hd

/-- A section comes to something that does not concern `ThreadStart`. -/
theorem result {q : State ι} {c : Section} {r : Result} (h : Requested n s)
    (hactors : q.actors = s.actors) (hexiting : q.exitPending = true ∨ q.running = false)
    (hruns : q.runs = s.runs) (hr : r ≠ .flag false) : Requested n (q.goto t (.unlock c r)) := by
  refine h.move (t := t) (x := ⟨(q.actors t).stage, .unlock c r⟩) ?_ hexiting hruns fun hd => ?_
  · rw [State.goto, State.become, hactors]
  · exact absurd (Option.some.inj (Actor.stage_of_decided hd).1) hr

theorem lock {pc : Pc ι} (h : Requested n s) (hpc : pc.result? = none) :
    Requested n (s.lock t pc) := by
  unfold State.lock
  split
  · exact h.goto rfl h.exiting rfl hpc
  · exact h

/-- A section of `ThreadStart` finds that the exit is pending. -/
theorem heeded (h : Requested n s) (hinv : Inv s) {c : Section}
    (hclear : s.exitPending = false) (hsection : (s.actors t).pc = .body c) :
    Requested n (s.goto t (.unlock c (.flag false))) := by
  refine h.move (x := ⟨(s.actors t).stage, .unlock c (.flag false)⟩) rfl h.exiting rfl fun hd => ?_
  exfalso
  have hstage := (Actor.stage_of_decided hd).2
  have hworking : (s.actors t).working = true := by
    rw [Actor.working, hsection]
    rcases hstage with hstage | ⟨result, hstage⟩ <;> rw [show (s.actors t).stage = _ from hstage] <;> rfl
  have hrunning := hinv.running_of_claims (Actor.claims_of_working hworking)
  rcases h.exiting with hpending | hidle
  · rw [hclear] at hpending
    cases hpending
  · rw [hrunning] at hidle
    cases hidle

theorem iterate (h : Requested n s) (hinv : Inv s) (ht : (s.actors t).pc = .body .iteration)
    (result : Bool) : Requested n (s.iterate t result) := by
  unfold State.iterate
  split
  · exact h.goto rfl (.inl rfl) rfl rfl
  · rename_i hlast
    rw [Bool.or_eq_true, not_or] at hlast
    exact h.heeded hinv (Bool.eq_false_iff.2 hlast.2) ht

theorem body {c : Section} (h : Requested n s) (hinv : Inv s) (ht : (s.actors t).pc = .body c)
    (hstarts : (s.body t c).starts = s.starts) : Requested n (s.body t c) := by
  cases c with
  | iteration =>
      unfold State.body
      simp only
      split
      · exact h.iterate hinv ht _
      · exact h
  | method m =>
      cases m with
      | start =>
          cases hrunning : s.running with
          | true =>
              rw [State.body, if_pos hrunning]
              exact h.result rfl h.exiting rfl nofun
          | false =>
              rw [State.body, if_neg (by rw [hrunning]; exact nofun)] at hstarts
              exact absurd hstarts (Nat.succ_ne_self _)
      | notifyExitSync => exact h.goto rfl (.inl rfl) rfl rfl
      | notifyExitAsync => exact h.result rfl (.inl rfl) rfl nofun
      | isExitPending =>
          show Requested n (s.goto t (.unlock _ (.flag s.exitPending)))
          cases hpending : s.exitPending with
          | true => exact h.result rfl h.exiting rfl nofun
          | false => exact h.heeded hinv hpending ht
      | isRunning =>
          refine h.move (x := ⟨(s.actors t).stage, .unlock (.method .isRunning) (.flag s.running)⟩) rfl
            h.exiting rfl fun hd => ?_
          have hmay := hinv.shaped t (.method .isRunning) (by rw [ht]; rfl)
          exfalso
          rcases (Actor.stage_of_decided hd).2 with hstage | ⟨result, hstage⟩ <;>
            rw [show (s.actors t).stage = _ from hstage] at hmay <;> cases hmay

theorem loop (h : Requested n s) : Requested n (s.loop t) := by
  unfold State.loop
  split
  · exact h.goto rfl h.exiting rfl rfl
  · rename_i hrunning
    exact h.result rfl (.inr (Bool.eq_false_iff.2 hrunning)) rfl nofun

theorem create (h : Requested n s) (created : Option ι) : Requested n (s.create t created) := by
  cases created with
  | none => exact h.goto rfl h.exiting rfl rfl
  | some worker =>
      unfold State.create
      simp only
      split
      · have hborn : Requested n (s.become worker ⟨.readyToWork, .out⟩) :=
          h.move rfl h.exiting rfl nofun
        exact hborn.goto rfl hborn.exiting rfl rfl
      · exact h.goto rfl h.exiting rfl rfl

omit [DecidableEq ι] in
theorem wake (h : Requested n s) : Requested n { s with actors := fun u => (s.actors u).wake } := by
  refine ⟨h.exiting, h.runs, fun u hu => h.decided u ?_⟩
  have hwake : (s.actors u).wake.decided = (s.actors u).decided := by
    unfold Actor.wake
    split
    · rename_i hasleep
      rw [Actor.decided_of_none rfl, Actor.decided_of_none (by rw [hasleep]; rfl)]
    · rfl
  exact hwake ▸ hu

/-- `Run` is called by the one thread that had decided for it. -/
theorem back {c : Section} {r : Result} (h : Requested n s) (hinv : Inv s)
    (ht : (s.actors t).pc = .back c r) : Requested n (s.back t r) := by
  by_cases hcalled : (s.actors t).stage.after r = .run ∧ (s.actors t).stage ≠ .run
  · have hdecided : (s.actors t).decided = true := by
      unfold Actor.decided
      rw [ht]
      revert hcalled
      cases (s.actors t).stage with
      | first | iterated =>
          cases r with
          | flag b =>
              cases b with
              | false => exact fun _ => rfl
              | true => exact fun hc => by cases hc.1
          | status | done => exact fun hc => by cases hc.1
      | run => exact fun hc => absurd rfl hc.2
      | absent | client | readyToWork => exact fun hc => by cases hc.1
    have hruns := h.decided t hdecided
    have hnew : (s.back t r).runs = s.runs + 1 := by
      rw [State.back, if_pos hcalled]
      rfl
    refine ⟨h.exiting, by omega, ?_⟩
    refine forall_update (P := fun (_ : ι) (a : Actor ι) => a.decided = true →
      (s.back t r).runs < n) (fun hd => ?_) fun u hu hd => ?_
    · rw [Actor.decided_of_none rfl] at hd
      cases hd
    · exact absurd (hinv.claims_unique (Actor.claims_of_working (Actor.working_of_decided hdecided))
        (Actor.claims_of_working (Actor.working_of_decided hd))) hu
  · refine h.move (x := ⟨(s.actors t).stage.after r, .out⟩) rfl h.exiting ?_ fun hd => ?_
    · rw [State.back, if_neg hcalled]
      rfl
    · rw [Actor.decided_of_none rfl] at hd
      cases hd

theorem go (h : Requested n s) (hinv : Inv s) (created : Option ι)
    (hstarts : (s.go t created).starts = s.starts) : Requested n (s.go t created) := by
  unfold State.go at hstarts ⊢
  cases ht : (s.actors t).pc with
  | out =>
      simp only
      refine h.goto rfl h.exiting rfl ?_
      cases (s.actors t).stage <;> rfl
  | asleep => exact h
  | lock c => exact h.lock rfl
  | body c =>
      rw [ht] at hstarts
      exact h.body hinv ht hstarts
  | create => exact h.create created
  | assign worker => exact h.result rfl h.exiting rfl nofun
  | fail => exact h.result rfl (.inr rfl) rfl nofun
  | test =>
      simp only
      split
      · refine h.move (x := ⟨(s.actors t).stage, .back (.method .notifyExitSync)
          (.status .wouldBlock)⟩) rfl h.exiting rfl fun hd => ?_
        exact absurd (Option.some.inj (Actor.stage_of_decided hd).1) nofun
      · exact h.goto rfl h.exiting rfl rfl
  | loop => exact h.loop
  | notified | awake => exact h.lock rfl
  | notifyAll => exact h.wake.result rfl h.exiting rfl nofun
  | unlock c r =>
      refine h.move (x := ⟨(s.actors t).stage, .back c r⟩) rfl h.exiting rfl fun hd => ?_
      unfold Actor.decided at hd ⊢
      rw [ht]
      exact hd
  | back c r => exact h.back hinv ht

theorem step (h : Requested n s) (hinv : Inv s) (a : ι × Act ι)
    (hstarts : (s.step a).starts = s.starts) : Requested n (s.step a) := by
  obtain ⟨t, a⟩ := a
  cases a with
  | call m =>
      unfold State.step
      simp only
      split
      · split
        · refine h.goto rfl h.exiting rfl ?_
          cases m <;> rfl
        · exact h
      · exact h
  | finish result =>
      unfold State.step
      simp only
      split
      · refine h.move rfl h.exiting rfl fun hd => ?_
        rw [Actor.decided_of_none rfl] at hd
        cases hd
      · exact h
  | go created => exact h.go hinv created hstarts
  | spurious =>
      unfold State.step
      simp only
      split
      · exact h.goto rfl h.exiting rfl rfl
      · exact h

end Requested

/-! ## Runs without a `Start` -/

theorem starts_body (s : State ι) (t : ι) (c : Section) : s.starts ≤ (s.body t c).starts := by
  cases c with
  | iteration =>
      unfold State.body
      simp only
      split
      · unfold State.iterate
        split <;> exact le_rfl
      · exact le_rfl
  | method m =>
      cases m with
      | start =>
          show s.starts ≤ (if _ then _ else _ : State ι).starts
          split
          · exact le_rfl
          · exact Nat.le_succ _
      | _ => exact le_rfl

theorem starts_step (s : State ι) (a : ι × Act ι) : s.starts ≤ (s.step a).starts := by
  have hlock : ∀ t pc, (s.lock t pc).starts = s.starts := by
    intro t pc
    unfold State.lock
    split <;> rfl
  obtain ⟨t, a⟩ := a
  cases a with
  | call m =>
      unfold State.step
      simp only
      split
      · split <;> exact le_rfl
      · exact le_rfl
  | finish result =>
      unfold State.step
      simp only
      split <;> exact le_rfl
  | spurious =>
      unfold State.step
      simp only
      split <;> exact le_rfl
  | go created =>
      show s.starts ≤ (s.go t created).starts
      unfold State.go
      cases (s.actors t).pc with
      | lock | notified | awake => exact (hlock t _).ge
      | body c => exact starts_body s t c
      | create =>
          show s.starts ≤ (s.create t created).starts
          cases created with
          | none => exact le_rfl
          | some worker =>
              unfold State.create
              simp only
              split <;> exact le_rfl
      | test =>
          simp only
          split <;> exact le_rfl
      | loop =>
          show s.starts ≤ (s.loop t).starts
          unfold State.loop
          split <;> exact le_rfl
      | _ => exact le_rfl

theorem starts_run (s : State ι) (as : List (ι × Act ι)) : s.starts ≤ (s.run as).starts := by
  induction as generalizing s with
  | nil => exact le_rfl
  | cons a as ih => exact (starts_step s a).trans (ih _)

theorem Requested.run (h : Requested n s) (hinv : Inv s) (as : List (ι × Act ι))
    (hstarts : (s.run as).starts = s.starts) : Requested n (s.run as) := by
  induction as generalizing s with
  | nil => exact h
  | cons a as ih =>
      have hstep := starts_step s a
      have hrest : (s.step a).starts ≤ (s.run (a :: as)).starts := starts_run (s.step a) as
      have heq : (s.step a).starts = s.starts := by omega
      exact ih (h.step hinv a heq) (hinv.step a) (by rw [heq]; exact hstarts)

/-- **A request is heeded.** Once the exit is pending, `Run` is called at most once more before `Start`
is called again with success, and not at all if `ThreadStart` is not just about to call it; and the
exit stays pending until there is no thread. -/
theorem request_heeded (clients : ι → Bool) (as bs : List (ι × Act ι)) {s s' : State ι}
    (hs : (State.new clients).run as = s) (hs' : s.run bs = s') (hpending : s.exitPending = true)
    (hstarts : s'.starts = s.starts) :
    s'.runs ≤ s.runs + 1 ∧ ((∀ t, (s.actors t).decided = false) → s'.runs ≤ s.runs) ∧
      (s'.exitPending = true ∨ s'.running = false) := by
  have hinv : Inv s := hs ▸ (Inv.new clients).run as
  rw [← hs'] at hstarts ⊢
  have hone : Requested (s.runs + 1) s := ⟨.inl hpending, Nat.le_succ _, fun _ _ => Nat.lt_succ_self _⟩
  have hrun := hone.run hinv bs hstarts
  refine ⟨hrun.runs, fun hnone => ?_, hrun.exiting⟩
  have hzero : Requested s.runs s := by
    refine ⟨.inl hpending, le_rfl, fun t ht => ?_⟩
    rw [hnone t] at ht
    cases ht
  exact (hzero.run hinv bs hstarts).runs

/-- `Run` returns, and the thread ends. -/
def runReturns : List (Nat × Act Nat) := [(1, .finish true), (1, .go none), (1, .go none), (1, .go none)]

theorem request_heeded_waiting : (waiting.run runReturns).running = false ∧
    (waiting.run runReturns).runs ≤ waiting.runs + 1 :=
  ⟨by decide +kernel, (request_heeded creator startAndWait runReturns waiting_eq rfl
    (by decide +kernel) (by decide +kernel)).1⟩

end CUtils.ThreadEx
