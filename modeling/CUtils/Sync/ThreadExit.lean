import CUtils.Sync.ThreadEx

/-!
# What `running_` says

At most one thread is in `ThreadStart`, and `running_` says that there is one, or that `Start` is
about to create it. The argument is that of a mutex: `running_` is set by the one who comes to hold
it, handed on by `pthread_create` and given back at the end of the last iteration. Hence calls of
`Run` do not overlap, and `NotifyExitSync` comes out of its loop when nobody is left in
`ThreadStart` (`one_worker`).
-/

namespace CUtils.ThreadEx

open Threads StateRun

variable {ι : Type}

/-! ## Places -/

/-- What others rely on while a thread has the mutex. -/
inductive Special (ι : Type)
  /-- `Start` has set `running_` and there is no thread yet. -/
  | creating
  | assigning (worker : ι)
  /-- The last iteration is over, and the sleepers are not notified. -/
  | notifying

namespace Pc

def inside : Pc ι → Bool
  | .body _ | .create | .assign _ | .fail | .loop | .notifyAll | .unlock _ _ => true
  | .out | .lock _ | .test | .asleep | .notified | .awake | .back _ _ => false

def special : Pc ι → Option (Special ι)
  | .create | .fail => some .creating
  | .assign worker => some (.assigning worker)
  | .notifyAll => some .notifying
  | _ => none

def creates : Pc ι → Bool
  | .create | .fail => true
  | _ => false

/-- The last iteration is over. -/
def retired : Pc ι → Bool
  | .notifyAll | .unlock .iteration (.flag true) | .back .iteration (.flag true) => true
  | _ => false

/-- The section a step belongs to. -/
def section? : Pc ι → Option Section
  | .out => none
  | .lock c | .body c | .unlock c _ | .back c _ => some c
  | .create | .assign _ | .fail => some (.method .start)
  | .test | .loop | .asleep | .notified | .awake => some (.method .notifyExitSync)
  | .notifyAll => some .iteration

/-- In a section, with the mutex or after it. -/
def locked : Pc ι → Bool
  | .out | .lock _ => false
  | _ => true

/-- Past the test of `NotifyExitSync`. -/
def waits : Pc ι → Bool
  | .lock (.method .notifyExitSync) | .body (.method .notifyExitSync) | .loop | .asleep | .notified
  | .awake | .unlock (.method .notifyExitSync) _ => true
  | _ => false

/-- Out of the loop of `NotifyExitSync`. -/
def exited : Pc ι → Bool
  | .unlock (.method .notifyExitSync) _ => true
  | _ => false

theorem creates_iff {pc : Pc ι} : pc.creates = true ↔ pc.special = some .creating := by
  cases pc <;> simp [creates, special]

theorem inside_of_special {pc : Pc ι} {p : Special ι} (h : pc.special = some p) : pc.inside = true := by
  cases pc <;> first | rfl | cases h

theorem inside_of_exited {pc : Pc ι} (h : pc.exited = true) : pc.inside = true := by
  cases pc <;> first | rfl | cases h

theorem eq_out {pc : Pc ι} (h : pc.section? = none) : pc = .out := by
  cases pc <;> first | rfl | cases h

end Pc

/-- In `ThreadStart`. -/
def Stage.worker : Stage → Bool
  | .readyToWork | .first | .run | .iterated _ => true
  | .absent | .client => false

/-- The sections that belong to a stage. -/
def Stage.may : Stage → Section → Bool
  | .absent, _ => false
  | .first, c => c = .method .isExitPending
  | .iterated _, c => c = .iteration
  | .client, c | .readyToWork, c | .run, c => c ≠ .iteration

namespace Actor

def inside (a : Actor ι) : Bool := a.pc.inside

/-- In `ThreadStart` and not past the end of the last iteration. -/
def working (a : Actor ι) : Bool := a.stage.worker && !a.pc.retired

/-- The one for whom `running_` is set. -/
def claims (a : Actor ι) : Bool := a.working || a.pc.creates

/-- A worker that has had the mutex. -/
def checked (a : Actor ι) : Bool :=
  a.working && (a.stage = .run || (a.stage ≠ .readyToWork && a.pc.locked))

theorem working_of_checked {a : Actor ι} (h : a.checked = true) : a.working = true := by
  unfold checked at h
  rw [Bool.and_eq_true] at h
  exact h.1

theorem claims_of_working {a : Actor ι} (h : a.working = true) : a.claims = true := by
  rw [claims, h, Bool.true_or]

theorem claims_of_creates {a : Actor ι} (h : a.pc.creates = true) : a.claims = true := by
  rw [claims, h, Bool.or_true]

end Actor

/-! ## The invariant -/

structure Inv (s : State ι) : Prop where
  mutex : Guarded Actor.inside s.owner s.actors
  running : ∃ worker, Guarded Actor.claims worker s.actors ∧ s.running = worker.isSome
  shaped : ∀ t c, (s.actors t).pc.section? = some c → (s.actors t).stage.may c = true
  thread : ∀ t, s.thread = some t → (s.actors t).working = true
  /-- `Start` stores the name of a worker before it gives back the mutex. -/
  named : ∀ t, (s.actors t).working = true →
    s.thread = some t ∨ ∃ u, (s.actors u).pc.special = some (.assigning t)
  assigned : ∀ t u, (s.actors u).pc.special = some (.assigning t) → (s.actors t).working = true
  checked : ∀ t, (s.actors t).checked = true → s.thread = some t
  asleep : ∀ t, (s.actors t).pc = .asleep →
    (s.running = true ∧ ∀ u, (s.actors u).pc.special ≠ some .creating) ∨
      ∃ u, (s.actors u).pc.special = some .notifying
  exited : ∀ t, (s.actors t).pc.exited = true → s.running = false
  unblocked : ∀ t, (s.actors t).stage = .run → (s.actors t).pc.waits = false
  alone : ∀ t, (s.actors t).pc.special = some .creating → (s.actors t).working = false

section

variable {s s' : State ι} {t u : ι} {x : Actor ι}

namespace Inv

/-- Nobody is in `ThreadStart` or about to get there. -/
theorem unclaimed (h : Inv s) (hrunning : s.running = false) (u : ι) :
    (s.actors u).claims = false := by
  obtain ⟨worker, hclaims, hworker⟩ := h.running
  cases worker with
  | none => exact hclaims.outside rfl u
  | some w =>
      rw [hrunning] at hworker
      cases hworker

theorem idle (h : Inv s) (hrunning : s.running = false) (u : ι) : (s.actors u).working = false := by
  rw [← Bool.not_eq_true]
  intro hu
  have hclaims := h.unclaimed hrunning u
  rw [Actor.claims_of_working hu] at hclaims
  cases hclaims

theorem running_of_claims (h : Inv s) (hu : (s.actors u).claims = true) : s.running = true := by
  cases hrunning : s.running with
  | true => rfl
  | false =>
      rw [h.unclaimed hrunning u] at hu
      cases hu

theorem claims_unique (h : Inv s) (ht : (s.actors t).claims = true)
    (hu : (s.actors u).claims = true) : u = t := by
  obtain ⟨worker, hclaims, -⟩ := h.running
  exact hclaims.unique ht hu

/-- The one who has the mutex is the only one that others rely on. -/
theorem special_unique (h : Inv s) (ht : (s.actors t).pc.inside = true) {p : Special ι}
    (hu : (s.actors u).pc.special = some p) : u = t :=
  h.mutex.unique ht (Pc.inside_of_special hu)

theorem special_none (h : Inv s) (ht : (s.actors t).pc.inside = true) (hu : u ≠ t) :
    (s.actors u).pc.special = none := by
  cases hp : (s.actors u).pc.special with
  | none => rfl
  | some p => exact absurd (h.special_unique ht hp) hu

/-- Without a thread in `ThreadStart` nobody sleeps, if the mutex is not with one that is about to
notify. -/
theorem no_sleeper (h : Inv s) (hrunning : s.running = false)
    (hnotifying : ∀ u, (s.actors u).pc.special ≠ some .notifying) (t : ι) :
    (s.actors t).pc ≠ .asleep := by
  intro ht
  rcases h.asleep t ht with ⟨hrun, -⟩ | ⟨u, hu⟩
  · rw [hrunning] at hrun
    cases hrun
  · exact hnotifying u hu

end Inv

/-! ## One step -/

variable [DecidableEq ι]

/-- A thread goes on to `x`, and what others rely on stays as it is. -/
structure Plain (s : State ι) (t : ι) (x : Actor ι) : Prop where
  working : x.working = (s.actors t).working
  special : ∀ p, p ≠ .notifying → (x.pc.special = some p ↔ (s.actors t).pc.special = some p)
  notifying : (s.actors t).pc.special = some .notifying →
    x.pc.special = some .notifying ∨ ∀ u, (s.actors u).pc ≠ .asleep
  shaped : ∀ c, x.pc.section? = some c → x.stage.may c = true
  checked : x.checked = true → s.thread = some t
  asleep : x.pc = .asleep → s.running = true ∧ ∀ u, (s.actors u).pc.special ≠ some .creating
  exited : x.pc.exited = true → s.running = false
  unblocked : x.stage = .run → x.pc.waits = false

theorem Inv.move (h : Inv s) (hx : Plain s t x) (hactors : s'.actors = Function.update s.actors t x)
    (hrunning : s'.running = s.running) (hthread : s'.thread = s.thread)
    (hmutex : Guarded Actor.inside s'.owner (Function.update s.actors t x)) : Inv s' := by
  have hspecial : ∀ u p, p ≠ .notifying →
      ((s'.actors u).pc.special = some p ↔ (s.actors u).pc.special = some p) := by
    rw [hactors]
    exact forall_update (P := fun (u : ι) (a : Actor ι) => ∀ p, p ≠ Special.notifying →
      (a.pc.special = some p ↔ (s.actors u).pc.special = some p)) hx.special fun _ _ _ _ => Iff.rfl
  have hworking : ∀ u, (s'.actors u).working = (s.actors u).working := by
    rw [hactors]
    exact forall_update (P := fun (u : ι) (a : Actor ι) => a.working = (s.actors u).working) hx.working
      fun _ _ => rfl
  have hclaims : x.claims = (s.actors t).claims := by
    have hcreates : x.pc.creates = (s.actors t).pc.creates := by
      rw [Bool.eq_iff_iff, Pc.creates_iff, Pc.creates_iff, hx.special .creating nofun]
    rw [Actor.claims, Actor.claims, hx.working, hcreates]
  obtain ⟨worker, hguarded, hworker⟩ := h.running
  refine ⟨?_, ⟨worker, ?_, hrunning.trans hworker⟩, ?_, ?_, ?_, ?_, ?_, ?_, ?_, ?_, ?_⟩
  · rw [hactors]
    exact hmutex
  · rw [hactors]
    exact hguarded.stay hclaims
  · rw [hactors]
    exact forall_update (P := fun (_ : ι) (a : Actor ι) => ∀ c, a.pc.section? = some c → a.stage.may c = true) hx.shaped
      fun u _ => h.shaped u
  · intro u hu
    rw [hworking]
    exact h.thread u (hthread ▸ hu)
  · intro u hu
    rw [hworking] at hu
    rw [hthread]
    exact (h.named u hu).imp_right fun ⟨v, hv⟩ => ⟨v, (hspecial v (.assigning u) nofun).2 hv⟩
  · intro u v hv
    rw [hworking]
    exact h.assigned u v ((hspecial v (.assigning u) nofun).1 hv)
  · rw [hactors, hthread]
    exact forall_update (P := fun (u : ι) (a : Actor ι) => a.checked = true → s.thread = some u) hx.checked
      fun u _ => h.checked u
  · intro u hu
    by_cases hut : u = t
    · rw [hut, hactors, Function.update_self] at hu
      obtain ⟨hrun, hcreating⟩ := hx.asleep hu
      exact .inl ⟨hrunning.trans hrun, fun v hv => hcreating v ((hspecial v .creating nofun).1 hv)⟩
    · have hslept : (s.actors u).pc = .asleep := by
        rw [hactors, Function.update_of_ne hut] at hu
        exact hu
      rcases h.asleep u hslept with ⟨hrun, hcreating⟩ | ⟨v, hv⟩
      · exact .inl ⟨hrunning.trans hrun, fun v hv => hcreating v ((hspecial v .creating nofun).1 hv)⟩
      · refine .inr ⟨v, ?_⟩
        rw [hactors]
        by_cases hvt : v = t
        · rw [hvt, Function.update_self]
          exact (hx.notifying (hvt ▸ hv)).resolve_right fun hnone => hnone u hslept
        · rw [Function.update_of_ne hvt]
          exact hv
  · rw [hactors, hrunning]
    exact forall_update (P := fun (_ : ι) (a : Actor ι) => a.pc.exited = true → s.running = false) hx.exited
      fun u _ => h.exited u
  · rw [hactors]
    exact forall_update (P := fun (_ : ι) (a : Actor ι) => a.stage = .run → a.pc.waits = false) hx.unblocked
      fun u _ => h.unblocked u
  · intro u hu
    rw [hworking]
    exact h.alone u ((hspecial u .creating nofun).1 hu)

/-- A step that leaves alone the mutex. -/
theorem Inv.stay (h : Inv s) (hx : Plain s t x) (hinside : x.inside = (s.actors t).inside)
    (hactors : s'.actors = Function.update s.actors t x) (hrunning : s'.running = s.running)
    (hthread : s'.thread = s.thread) (howner : s'.owner = s.owner) : Inv s' :=
  h.move hx hactors hrunning hthread (howner ▸ h.mutex.stay hinside)

/-- A step that takes the mutex, if that is free. -/
theorem Inv.lock {pc : Pc ι} (h : Inv s) (hx : s.owner = none → Plain s t ⟨(s.actors t).stage, pc⟩)
    (hinside : pc.inside = true) : Inv (s.lock t pc) := by
  unfold State.lock
  split
  · rename_i hfree
    exact h.move (hx hfree) rfl rfl rfl (h.mutex.enter hfree hinside)
  · exact h

/-- A step that gives it back. -/
theorem Inv.leave (h : Inv s) (hx : Plain s t x) (hin : (s.actors t).pc.inside = true)
    (hout : x.pc.inside = false) : Inv ({ s with owner := none }.become t x) :=
  h.move hx rfl rfl rfl (h.mutex.leave hin hout)

omit [DecidableEq ι] in
/-- Within a section. -/
theorem Inv.plain (h : Inv s) {old pc : Pc ι} (hold : (s.actors t).pc = old)
    (hretired : pc.retired = old.retired) (hspecial : pc.special = old.special)
    (hsection : pc.section? = old.section?) (hlocked : pc.locked = true → old.locked = true)
    (hwaits : pc.waits = true → old.waits = true)
    (hasleep : pc = .asleep → s.running = true ∧ ∀ u, (s.actors u).pc.special ≠ some .creating)
    (hexited : pc.exited = true → s.running = false) : Plain s t ⟨(s.actors t).stage, pc⟩ where
  working := by
    show (_ && !pc.retired) = (_ && !(s.actors t).pc.retired)
    rw [hold, hretired]
  special p _ := by rw [hold, ← hspecial]
  notifying hnotifying := .inl (by rw [hold, ← hspecial] at hnotifying; exact hnotifying)
  shaped c hc := by
    refine h.shaped t c ?_
    rw [hold, ← hsection]
    exact hc
  checked hchecked := by
    refine h.checked t ?_
    unfold Actor.checked Actor.working at hchecked ⊢
    simp only [hold, Bool.and_eq_true, Bool.or_eq_true, hretired] at hchecked ⊢
    exact hchecked.imp_right fun hor => hor.imp_right fun hand => hand.imp_right hlocked
  asleep := hasleep
  exited := hexited
  unblocked hrun := by
    rw [← Bool.not_eq_true]
    intro hpc
    have hout := h.unblocked t hrun
    rw [hold, hwaits hpc] at hout
    cases hout

omit [DecidableEq ι] in
/-- The worker that gets the mutex has been named. -/
theorem Inv.named_of_free (h : Inv s) (hfree : s.owner = none) (ht : (s.actors t).working = true) :
    s.thread = some t := by
  refine (h.named t ht).resolve_right ?_
  rintro ⟨u, hu⟩
  have hinside := h.mutex.outside hfree u
  rw [Actor.inside, Pc.inside_of_special hu] at hinside
  cases hinside

theorem Inv.lockBody (h : Inv s) {c : Section} (ht : (s.actors t).pc = .lock c) :
    Inv (s.lock t (.body c)) := by
  refine h.lock (fun hfree => ?_) rfl
  have hworking : (⟨(s.actors t).stage, .body c⟩ : Actor ι).working = (s.actors t).working := by
    rw [Actor.working, Actor.working, ht]
    rfl
  refine ⟨hworking, fun p _ => by rw [ht]; exact Iff.rfl, fun hnotifying => ?_,
    fun c' hc' => h.shaped t c' (by rw [ht]; exact hc'), ?_, nofun, nofun, ?_⟩
  · rw [ht] at hnotifying
    cases hnotifying
  · intro hchecked
    exact h.named_of_free hfree (hworking ▸ Actor.working_of_checked hchecked)
  · intro hrun
    have hwaits := h.unblocked t hrun
    rw [ht] at hwaits
    revert hwaits
    cases c with
    | method m => cases m <;> exact id
    | iteration => exact id

/-- The one that has the mutex leaves nobody in `ThreadStart`. -/
theorem Inv.vacant (h : Inv s) (hin : (s.actors t).pc.inside = true) (hx : x.pc.inside = true)
    (hs : s'.actors = Function.update s.actors t x) (howner : s'.owner = s.owner)
    (hthread : s'.thread = none) (hrunning : s'.running = x.pc.creates)
    (hidle : ∀ u, (s'.actors u).working = false)
    (hshaped : ∀ c, x.pc.section? = some c → x.stage.may c = true)
    (hassign : ∀ u, x.pc.special ≠ some (.assigning u))
    (hasleep : x.pc.special = some .notifying ∨ ∀ u, (s.actors u).pc ≠ .asleep)
    (hexited : x.pc.exited = false) (hwaits : x.stage = .run → x.pc.waits = false) : Inv s' := by
  have hself : s'.actors t = x := by rw [hs, Function.update_self]
  have hspecial : ∀ u, u ≠ t → (s'.actors u).pc.special = none := by
    intro u hu
    rw [hs, Function.update_of_ne hu]
    exact h.special_none hin hu
  refine ⟨?_, ?_, ?_, ?_, ?_, ?_, ?_, ?_, ?_, ?_, fun u _ => hidle u⟩
  · rw [hs, howner]
    exact h.mutex.stay (hx.trans hin.symm)
  · refine ⟨if x.pc.creates then some t else none, fun u => ?_, ?_⟩
    · rw [Actor.claims, hidle u, Bool.false_or]
      by_cases hu : u = t
      · rw [hu, hself]
        cases x.pc.creates <;> simp
      · have hcreates : (s'.actors u).pc.creates ≠ true := by
          rw [ne_eq, Pc.creates_iff, hspecial u hu]
          exact nofun
        refine iff_of_false hcreates fun heq => ?_
        cases hc : x.pc.creates with
        | true =>
            rw [hc] at heq
            exact hu (Option.some.inj heq).symm
        | false =>
            rw [hc] at heq
            cases heq
    · rw [hrunning]
      cases x.pc.creates <;> rfl
  · rw [hs]
    exact forall_update (P := fun (_ : ι) (a : Actor ι) => ∀ c, a.pc.section? = some c →
      a.stage.may c = true) hshaped fun u _ => h.shaped u
  · intro u hu
    rw [hthread] at hu
    cases hu
  · intro u hu
    rw [hidle u] at hu
    cases hu
  · intro u v hv
    by_cases hvt : v = t
    · rw [hvt, hself] at hv
      exact absurd hv (hassign u)
    · rw [hspecial v hvt] at hv
      cases hv
  · intro u hu
    have hworking := Actor.working_of_checked hu
    rw [hidle u] at hworking
    cases hworking
  · intro u hu
    rcases hasleep with hnotifying | hnone
    · exact .inr ⟨t, hself ▸ hnotifying⟩
    · by_cases hut : u = t
      · rw [hut, hself] at hu
        rw [hu] at hx
        cases hx
      · rw [hs, Function.update_of_ne hut] at hu
        exact absurd hu (hnone u)
  · intro u hu
    by_cases hut : u = t
    · rw [hut, hself, hexited] at hu
      cases hu
    · rw [hs, Function.update_of_ne hut] at hu
      exact absurd (h.mutex.unique (t := t) hin (Pc.inside_of_exited hu)) hut
  · rw [hs]
    exact forall_update (P := fun (_ : ι) (a : Actor ι) => a.stage = .run → a.pc.waits = false)
      hwaits fun u _ => h.unblocked u

omit [DecidableEq ι] in
/-- A section goes on to the next step. -/
theorem Inv.shaped_goto (h : Inv s) {old pc : Pc ι} (hold : (s.actors t).pc = old)
    (hsection : pc.section? = old.section?) (c : Section) (hc : pc.section? = some c) :
    (s.actors t).stage.may c = true := by
  refine h.shaped t c ?_
  rw [hold, ← hsection]
  exact hc

/-- `running_` is set. -/
theorem Inv.begin (h : Inv s) (ht : (s.actors t).pc = .body (.method .start))
    (hrunning : s.running = false) :
    Inv ({ s with
      status := .ok, exitPending := false, thread := none, running := true
      starts := s.starts + 1 }.goto t .create) := by
  have hin : (s.actors t).pc.inside = true := by rw [ht]; rfl
  refine h.vacant (x := ⟨(s.actors t).stage, .create⟩) hin rfl rfl rfl rfl rfl ?_
    (h.shaped_goto ht rfl) nofun (.inr (h.no_sleeper hrunning ?_)) rfl fun _ => rfl
  · refine forall_update (P := fun (_ : ι) (a : Actor ι) => a.working = false) ?_ fun u _ =>
      h.idle hrunning u
    have hold := h.idle hrunning t
    rw [Actor.working, ht] at hold
    exact hold
  · intro u hu
    have hut := h.special_unique hin hu
    rw [hut, ht] at hu
    cases hu

omit [DecidableEq ι] in
/-- While `Start` is about to create a thread there is none. -/
theorem Inv.idle_of_creates (h : Inv s) (ht : (s.actors t).pc.special = some .creating) (u : ι) :
    (s.actors u).working = false := by
  rw [← Bool.not_eq_true]
  intro hu
  have hut := h.claims_unique (Actor.claims_of_creates (Pc.creates_iff.2 ht))
    (Actor.claims_of_working hu)
  have halone := h.alone t ht
  rw [← hut, hu] at halone
  cases halone

omit [DecidableEq ι] in
theorem Inv.no_sleeper_of_creates (h : Inv s) (ht : (s.actors t).pc.special = some .creating) (u : ι) :
    (s.actors u).pc ≠ .asleep := by
  intro hu
  rcases h.asleep u hu with ⟨-, hcreating⟩ | ⟨v, hv⟩
  · exact hcreating t ht
  · have hvt := h.special_unique (Pc.inside_of_special ht) hv
    rw [hvt, ht] at hv
    cases hv

/-- `pthread_create` has failed. -/
theorem Inv.fail (h : Inv s) (ht : (s.actors t).pc = .fail) :
    Inv ({ s with status := .unknownError, running := false, thread := none }.goto t
      (.unlock (.method .start) (.status .unknownError))) := by
  have hcreating : (s.actors t).pc.special = some .creating := by rw [ht]; rfl
  have hin : (s.actors t).pc.inside = true := by rw [ht]; rfl
  refine h.vacant (x := ⟨(s.actors t).stage, .unlock (.method .start) (.status .unknownError)⟩) hin rfl
    rfl rfl rfl rfl ?_ (h.shaped_goto ht rfl) nofun (.inr (h.no_sleeper_of_creates hcreating)) rfl
    fun _ => rfl
  refine forall_update (P := fun (_ : ι) (a : Actor ι) => a.working = false) ?_ fun u _ =>
    h.idle_of_creates hcreating u
  have hold := h.idle_of_creates hcreating t
  rw [Actor.working, ht] at hold
  exact hold

/-- The last iteration is over. -/
theorem Inv.retire (h : Inv s) (ht : (s.actors t).pc = .body .iteration) :
    Inv ({ s with exitPending := true, running := false, thread := none }.goto t .notifyAll) := by
  have hin : (s.actors t).pc.inside = true := by rw [ht]; rfl
  have hworking : (s.actors t).working = true := by
    have hmay := h.shaped t .iteration (by rw [ht]; rfl)
    rw [Actor.working, ht]
    revert hmay
    cases (s.actors t).stage <;> simp [Stage.may, Stage.worker, Pc.retired]
  refine h.vacant (x := ⟨(s.actors t).stage, .notifyAll⟩) hin rfl rfl rfl rfl rfl ?_
    (h.shaped_goto ht rfl) nofun (.inl rfl) rfl fun _ => rfl
  refine forall_update (P := fun (_ : ι) (a : Actor ι) => a.working = false) ?_ fun u hu => ?_
  · rw [Actor.working]
    exact Bool.and_false _
  · rw [← Bool.not_eq_true]
    intro hworks
    exact hu (h.claims_unique (Actor.claims_of_working hworking) (Actor.claims_of_working hworks))

/-- `pthread_create` has made the thread `worker`, which is in `ThreadStart` from then on. -/
theorem Inv.create {worker : ι} (h : Inv s) (ht : (s.actors t).pc = .create)
    (habsent : (s.actors worker).stage = .absent) :
    Inv ((s.become worker ⟨.readyToWork, .out⟩).goto t (.assign worker)) := by
  have hcreating : (s.actors t).pc.special = some .creating := by rw [ht]; rfl
  have hin : (s.actors t).pc.inside = true := by rw [ht]; rfl
  have hout : (s.actors worker).pc = .out := by
    refine Pc.eq_out ?_
    cases hsection : (s.actors worker).pc.section? with
    | none => rfl
    | some c =>
        have hmay := h.shaped worker c hsection
        rw [habsent] at hmay
        cases hmay
  have hne : worker ≠ t := by
    intro heq
    rw [heq, ht] at hout
    cases hout
  have hidle := h.idle_of_creates hcreating
  have hs : ((s.become worker ⟨.readyToWork, .out⟩).goto t (.assign worker)).actors =
      Function.update (Function.update s.actors worker ⟨.readyToWork, .out⟩) t
        ⟨(s.actors t).stage, .assign worker⟩ := by
    have hstage : ((s.become worker ⟨.readyToWork, .out⟩).actors t).stage = (s.actors t).stage :=
      congrArg Actor.stage (Function.update_of_ne hne.symm _ _)
    rw [State.goto, hstage]
    rfl
  have hclaims : (⟨(s.actors t).stage, .assign worker⟩ : Actor ι).claims = false := by
    have hold := hidle t
    rw [Actor.working, ht] at hold
    rw [Actor.claims, Actor.working]
    exact (Bool.or_false _).trans hold
  obtain ⟨claimer, hguarded, hclaimer⟩ := h.running
  have hclaimed := Actor.claims_of_creates (Pc.creates_iff.2 hcreating)
  refine ⟨?_, ⟨some worker, ?_, h.running_of_claims hclaimed⟩, ?_, ?_, ?_, ?_, ?_, ?_, ?_, ?_, ?_⟩
  · rw [hs]
    refine (h.mutex.stay (t := worker) ?_).stay ?_
    · rw [Actor.inside, Actor.inside, hout]
    · rw [Function.update_of_ne hne.symm, Actor.inside, Actor.inside, ht]
      rfl
  · rw [hs]
    exact hguarded.hand hne hclaimed hclaims rfl
  · rw [hs]
    exact forall_update_two (P := fun (_ : ι) (a : Actor ι) => ∀ c, a.pc.section? = some c →
      a.stage.may c = true) hne (h.shaped_goto ht rfl) nofun fun u _ _ => h.shaped u
  · intro u hu
    have hworking := h.thread u hu
    rw [hidle u] at hworking
    cases hworking
  · rw [hs]
    have hworker := forall_update_two (P := fun (u : ι) (a : Actor ι) => a.working = true → u = worker)
      (y := ⟨.readyToWork, .out⟩) hne (fun hworking => absurd (Actor.claims_of_working hworking) (Bool.eq_false_iff.1 hclaims))
      (fun _ => rfl) fun u _ _ hu => absurd hu (Bool.eq_false_iff.1 (hidle u))
    intro u hu
    refine .inr ⟨t, ?_⟩
    rw [Function.update_self, hworker u hu]
    rfl
  · rw [hs]
    intro u
    refine forall_update_two (P := fun (_ : ι) (a : Actor ι) => a.pc.special = some (.assigning u) → _)
      hne (fun hu => ?_) nofun fun v hv _ hu => ?_
    · cases hu
      rw [Function.update_of_ne hne, Function.update_self]
      rfl
    · rw [h.special_none hin hv] at hu
      cases hu
  · rw [hs]
    refine forall_update_two (P := fun (u : ι) (a : Actor ι) => a.checked = true → s.thread = some u)
      hne (fun hchecked => ?_) nofun fun u _ _ => h.checked u
    rw [Bool.eq_false_iff] at hclaims
    exact absurd (Actor.claims_of_working (Actor.working_of_checked hchecked)) hclaims
  · intro u hu
    exfalso
    revert u
    rw [hs]
    exact forall_update_two (P := fun (_ : ι) (a : Actor ι) => a.pc = .asleep → False) hne nofun nofun
      fun u _ _ => h.no_sleeper_of_creates hcreating u
  · rw [hs]
    exact forall_update_two (P := fun (_ : ι) (a : Actor ι) => a.pc.exited = true → s.running = false)
      hne nofun nofun fun u _ _ => h.exited u
  · rw [hs]
    exact forall_update_two (P := fun (_ : ι) (a : Actor ι) => a.stage = .run → a.pc.waits = false)
      hne (fun _ => rfl) nofun fun u _ _ => h.unblocked u
  · rw [hs]
    refine forall_update_two (P := fun (_ : ι) (a : Actor ι) => a.pc.special = some .creating →
      a.working = false) hne nofun nofun fun u _ _ => h.alone u

/-- `Start` stores the name of the thread. -/
theorem Inv.assign {worker : ι} (h : Inv s) (ht : (s.actors t).pc = .assign worker) :
    Inv ({ s with thread := some worker }.goto t (.unlock (.method .start) (.status .ok))) := by
  have hin : (s.actors t).pc.inside = true := by rw [ht]; rfl
  have hworker := h.assigned worker t (by rw [ht]; rfl)
  have hs : ∀ u, ((Function.update s.actors t
      ⟨(s.actors t).stage, .unlock (.method .start) (.status .ok)⟩) u).working =
        (s.actors u).working := by
    refine forall_update (P := fun (u : ι) (a : Actor ι) => a.working = (s.actors u).working) ?_
      fun _ _ => rfl
    rw [Actor.working, Actor.working, ht]
    rfl
  have hspecial : ∀ u, ((Function.update s.actors t
      ⟨(s.actors t).stage, .unlock (.method .start) (.status .ok)⟩) u).pc.special = none :=
    forall_update (P := fun (_ : ι) (a : Actor ι) => a.pc.special = none) rfl
      fun u hu => h.special_none hin hu
  have hnamed : ∀ u, (s.actors u).working = true → u = worker := fun u hu =>
    h.claims_unique (Actor.claims_of_working hworker) (Actor.claims_of_working hu)
  obtain ⟨claimer, hguarded, hclaimer⟩ := h.running
  refine ⟨h.mutex.stay hin.symm, ⟨claimer, hguarded.stay ?_, hclaimer⟩, ?_, ?_, ?_, ?_, ?_, ?_, ?_, ?_,
    ?_⟩
  · rw [Actor.claims, Actor.claims, Actor.working, Actor.working, ht]
    rfl
  · exact forall_update (P := fun (_ : ι) (a : Actor ι) => ∀ c, a.pc.section? = some c →
      a.stage.may c = true) (h.shaped_goto ht rfl) fun u _ => h.shaped u
  · intro u hu
    cases hu
    exact (hs worker).trans hworker
  · intro u hu
    exact .inl (congrArg some (hnamed u ((hs u).symm.trans hu)).symm)
  · intro u v hv
    rw [State.goto, State.become, hspecial v] at hv
    cases hv
  · intro u hu
    exact congrArg some (hnamed u ((hs u).symm.trans (Actor.working_of_checked hu))).symm
  · intro u hu
    refine .inl ⟨?_, fun v => ?_⟩
    · exact h.running_of_claims (Actor.claims_of_working hworker)
    · rw [State.goto, State.become, hspecial v]
      exact nofun
  · exact forall_update (P := fun (_ : ι) (a : Actor ι) => a.pc.exited = true → s.running = false) nofun
      fun u _ => h.exited u
  · exact forall_update (P := fun (_ : ι) (a : Actor ι) => a.stage = .run → a.pc.waits = false)
      (fun _ => rfl) fun u _ => h.unblocked u
  · intro u hu
    rw [State.goto, State.become, hspecial u] at hu
    cases hu

/-- A section goes on, and what it changes is not in the invariant. -/
theorem Inv.goto {q : State ι} {old pc : Pc ι} (h : Inv s) (hold : (s.actors t).pc = old)
    (hactors : q.actors = s.actors) (hrunning : q.running = s.running) (hthread : q.thread = s.thread)
    (howner : q.owner = s.owner) (hinside : pc.inside = old.inside)
    (hretired : pc.retired = old.retired) (hspecial : pc.special = old.special)
    (hsection : pc.section? = old.section?) (hlocked : pc.locked = true → old.locked = true)
    (hwaits : pc.waits = true → old.waits = true) (hasleep : pc ≠ .asleep)
    (hexited : pc.exited = true → s.running = false) : Inv (q.goto t pc) := by
  refine h.stay (h.plain hold hretired hspecial hsection hlocked hwaits (fun heq => absurd heq hasleep)
    hexited) ?_ ?_ hrunning hthread howner
  · rw [Actor.inside, Actor.inside, hold]
    exact hinside
  · rw [State.goto, State.become, hactors]

/-- `NotifyExitSync` sleeps while there is a thread. -/
theorem Inv.loop (h : Inv s) (ht : (s.actors t).pc = .loop) : Inv (s.loop t) := by
  have hin : (s.actors t).pc.inside = true := by rw [ht]; rfl
  unfold State.loop
  split
  · rename_i hrunning
    refine h.leave (h.plain ht rfl rfl rfl (fun _ => rfl) (fun _ => rfl) (fun _ => ⟨hrunning, ?_⟩) nofun)
      hin rfl
    intro u hu
    rw [h.special_unique hin hu, ht] at hu
    cases hu
  · rename_i hrunning
    exact h.goto ht rfl rfl rfl rfl rfl rfl rfl rfl (fun _ => rfl) (fun _ => rfl) nofun
      fun _ => Bool.eq_false_iff.2 hrunning

theorem Inv.create_or_fail (h : Inv s) (ht : (s.actors t).pc = .create) (created : Option ι) :
    Inv (s.create t created) := by
  have hfail : Inv (s.goto t .fail) :=
    h.goto ht rfl rfl rfl rfl rfl rfl rfl rfl (fun _ => rfl) id nofun nofun
  cases created with
  | none => exact hfail
  | some worker =>
      unfold State.create
      simp only
      split
      · rename_i habsent
        exact h.create ht habsent
      · exact hfail

theorem Inv.iterate (h : Inv s) (ht : (s.actors t).pc = .body .iteration) (result : Bool) :
    Inv (s.iterate t result) := by
  unfold State.iterate
  split
  · exact h.retire ht
  · exact h.goto ht rfl rfl rfl rfl rfl rfl rfl rfl (fun _ => rfl) nofun nofun nofun

theorem Inv.body {c : Section} (h : Inv s) (ht : (s.actors t).pc = .body c) : Inv (s.body t c) := by
  cases c with
  | iteration =>
      unfold State.body
      simp only
      split
      · exact h.iterate ht _
      · exact h
  | method m =>
      cases m with
      | start =>
          show Inv (if _ then _ else _)
          split
          · exact h.goto ht rfl rfl rfl rfl rfl rfl rfl rfl (fun _ => rfl) nofun nofun nofun
          · rename_i hrunning
            exact h.begin ht (Bool.eq_false_iff.2 hrunning)
      | notifyExitSync =>
          exact h.goto ht rfl rfl rfl rfl rfl rfl rfl rfl (fun _ => rfl) (fun _ => rfl) nofun nofun
      | notifyExitAsync =>
          exact h.goto ht rfl rfl rfl rfl rfl rfl rfl rfl (fun _ => rfl) nofun nofun nofun
      | isExitPending =>
          exact h.goto ht rfl rfl rfl rfl rfl rfl rfl rfl (fun _ => rfl) nofun nofun nofun
      | isRunning =>
          exact h.goto ht rfl rfl rfl rfl rfl rfl rfl rfl (fun _ => rfl) nofun nofun nofun

omit [DecidableEq ι] in
theorem Actor.wake_pc_ne (a : Actor ι) : a.wake.pc ≠ .asleep := by
  intro ha
  unfold Actor.wake at ha
  split at ha
  · cases ha
  · rename_i hasleep
    exact hasleep ha

omit [DecidableEq ι] in
/-- The sleepers are notified. -/
theorem Inv.wake (h : Inv s) : Inv { s with actors := fun u => (s.actors u).wake } := by
  have hpc : ∀ {α : Type} (f : Pc ι → α), f .notified = f .asleep → ∀ u,
      f (s.actors u).wake.pc = f (s.actors u).pc := by
    intro α f hf u
    unfold Actor.wake
    split
    · rename_i hasleep
      rw [hasleep]
      exact hf
    · rfl
  have hstage : ∀ u, (s.actors u).wake.stage = (s.actors u).stage := by
    intro u
    unfold Actor.wake
    split <;> rfl
  have hworking : ∀ u, (s.actors u).wake.working = (s.actors u).working := by
    intro u
    rw [Actor.working, Actor.working, hstage, hpc Pc.retired rfl]
  obtain ⟨worker, hguarded, hworker⟩ := h.running
  refine ⟨fun u => ?_, ⟨worker, fun u => ?_, hworker⟩, fun u c hc => ?_, fun u hu => ?_,
    fun u hu => ?_, fun u v hv => ?_, fun u hu => ?_, fun u hu => ?_, fun u hu => ?_, fun u hu => ?_,
    fun u hu => ?_⟩
  · rw [Actor.inside, hpc Pc.inside rfl]
    exact h.mutex u
  · rw [Actor.claims, hworking, hpc Pc.creates rfl]
    exact hguarded u
  · rw [hpc Pc.section? rfl] at hc
    rw [hstage]
    exact h.shaped u c hc
  · rw [hworking]
    exact h.thread u hu
  · rw [hworking] at hu
    exact (h.named u hu).imp_right fun ⟨v, hv⟩ => ⟨v, (hpc Pc.special rfl v).trans hv⟩
  · rw [hpc Pc.special rfl] at hv
    rw [hworking]
    exact h.assigned u v hv
  · refine h.checked u ?_
    rw [Actor.checked, hworking, hstage, hpc Pc.locked rfl] at hu
    exact hu
  · exact absurd hu (Actor.wake_pc_ne _)
  · rw [hpc Pc.exited rfl] at hu
    exact h.exited u hu
  · rw [hstage] at hu
    rw [hpc Pc.waits rfl]
    exact h.unblocked u hu
  · rw [hpc Pc.special rfl] at hu
    rw [hworking]
    exact h.alone u hu

theorem Inv.notifyAll (h : Inv s) (ht : (s.actors t).pc = .notifyAll) :
    Inv ({ s with actors := fun u => (s.actors u).wake }.goto t (.unlock .iteration (.flag true))) := by
  have hself : (s.actors t).wake = s.actors t := by
    unfold Actor.wake
    rw [ht]
  refine h.wake.stay (t := t) (x := ⟨(s.actors t).wake.stage, .unlock .iteration (.flag true)⟩) ⟨?_, ?_,
    fun _ => .inr fun u => Actor.wake_pc_ne _, ?_, ?_, nofun, nofun, fun _ => rfl⟩ ?_ rfl rfl rfl rfl
  · simp only [hself]
    rw [Actor.working, Actor.working, ht]
    rfl
  · intro p hp
    simp only [hself]
    rw [ht]
    exact iff_of_false nofun fun heq => hp (Option.some.inj heq).symm
  · simp only [hself]
    exact h.shaped_goto ht rfl
  · intro hchecked
    have hworking := Actor.working_of_checked hchecked
    rw [Actor.working] at hworking
    simp [Pc.retired] at hworking
  · simp only [hself]
    rw [Actor.inside, Actor.inside, ht]
    rfl

/-- Outside the sections a thread goes from stage to stage. -/
theorem Inv.between {x : Actor ι} (h : Inv s) (hs : s'.actors = Function.update s.actors t x)
    (hrunning : s'.running = s.running) (hthread : s'.thread = s.thread) (howner : s'.owner = s.owner)
    (hin : (s.actors t).pc.inside = false) (hx : x.pc.inside = false)
    (hworking : x.working = (s.actors t).working) (hasleep : x.pc ≠ .asleep)
    (hshaped : ∀ c, x.pc.section? = some c → x.stage.may c = true)
    (hchecked : x.checked = true → (s.actors t).checked = true)
    (hwaits : x.stage = .run → x.pc.waits = false) : Inv s' := by
  have hspecial : ∀ {pc : Pc ι}, pc.inside = false → ∀ p, pc.special ≠ some p := by
    intro pc hpc p hp
    rw [Pc.inside_of_special hp] at hpc
    cases hpc
  refine h.stay (x := x) ⟨hworking, fun p _ => ?_, fun hnotifying => ?_, hshaped,
    fun hc => h.checked t (hchecked hc), fun ha => absurd ha hasleep, fun hexited => ?_, hwaits⟩
    (hx.trans hin.symm) hs hrunning hthread howner
  · exact iff_of_false (hspecial hx p) (hspecial hin p)
  · exact absurd hnotifying (hspecial hin _)
  · rw [Pc.inside_of_exited hexited] at hx
    cases hx

/-- A section has been left. -/
theorem Inv.back {c : Section} {r : Result} (h : Inv s) (ht : (s.actors t).pc = .back c r) :
    Inv (s.back t r) := by
  have hmay := h.shaped t c (by rw [ht]; rfl)
  refine h.between (x := ⟨(s.actors t).stage.after r, .out⟩) rfl rfl rfl rfl (by rw [ht]; rfl) rfl ?_
    nofun nofun ?_ fun _ => rfl
  · rw [Actor.working, Actor.working, ht]
    revert hmay
    cases (s.actors t).stage with
    | absent => exact nofun
    | client => exact fun _ => rfl
    | readyToWork | run =>
        intro hmay
        cases c with
        | iteration => cases hmay
        | method m => rfl
    | first =>
        intro hmay
        obtain rfl : c = .method .isExitPending := of_decide_eq_true hmay
        cases r with
        | flag pending => cases pending <;> rfl
        | status | done => rfl
    | iterated result =>
        intro hmay
        obtain rfl : c = .iteration := of_decide_eq_true hmay
        cases r with
        | flag last => cases last <;> rfl
        | status | done => rfl
  · rw [Actor.checked, Actor.checked, Actor.working, Actor.working, ht]
    revert hmay
    cases (s.actors t).stage with
    | absent => exact nofun
    | client | readyToWork => exact fun _ hc => by cases hc
    | run =>
        intro hmay
        cases c with
        | iteration => cases hmay
        | method m => exact fun _ => rfl
    | first =>
        intro hmay _
        obtain rfl : c = .method .isExitPending := of_decide_eq_true hmay
        rfl
    | iterated result =>
        intro hmay
        obtain rfl : c = .iteration := of_decide_eq_true hmay
        cases r with
        | flag last =>
            cases last with
            | false => exact fun _ => rfl
            | true => exact fun hc => by cases hc
        | status | done => exact fun _ => rfl

/-- `ThreadStart` goes on by itself. -/
theorem Inv.next (h : Inv s) (ht : (s.actors t).pc = .out) : Inv (s.goto t (s.actors t).stage.next) := by
  refine h.between (x := ⟨(s.actors t).stage, (s.actors t).stage.next⟩) rfl rfl rfl rfl
    (by rw [ht]; rfl) ?_ ?_ ?_ ?_ ?_ ?_
  · cases (s.actors t).stage <;> rfl
  · rw [Actor.working, Actor.working, ht]
    cases (s.actors t).stage <;> rfl
  · cases (s.actors t).stage <;> exact nofun
  · intro c
    cases (s.actors t).stage <;> intro hc <;> cases hc <;> rfl
  · rw [Actor.checked, Actor.checked, Actor.working, Actor.working, ht]
    cases (s.actors t).stage <;> exact id
  · intro hrun
    rw [hrun]
    rfl

/-- A method is called. -/
theorem Inv.call (h : Inv s) (ht : (s.actors t).pc = .out) (hfree : (s.actors t).stage.free = true)
    (m : Method) : Inv (s.goto t (State.enter m)) := by
  refine h.between (x := ⟨(s.actors t).stage, State.enter m⟩) rfl rfl rfl rfl (by rw [ht]; rfl) ?_ ?_ ?_
    ?_ ?_ ?_
  · cases m <;> rfl
  · rw [Actor.working, Actor.working, ht]
    cases m <;> rfl
  · cases m <;> exact nofun
  · intro c hc
    revert hfree
    have hc' : c = .method m := by
      cases m <;> exact (Option.some.inj hc).symm
    rw [hc']
    cases (s.actors t).stage <;> first | exact fun _ => rfl | exact nofun
  · rw [Actor.checked, Actor.checked, Actor.working, Actor.working, ht]
    revert hfree
    cases (s.actors t).stage <;> cases m <;> first | exact fun _ => id | exact nofun
  · intro _
    cases m <;> rfl

/-- `ReadyToWork` or `Run` has returned. -/
theorem Inv.finish (h : Inv s) (ht : (s.actors t).pc = .out) (result : Bool) :
    Inv (s.become t ⟨(s.actors t).stage.finish result, .out⟩) := by
  refine h.between (x := ⟨(s.actors t).stage.finish result, .out⟩) rfl rfl rfl rfl (by rw [ht]; rfl) rfl
    ?_ nofun nofun ?_ fun _ => rfl
  · rw [Actor.working, Actor.working, ht]
    cases (s.actors t).stage <;> cases result <;> rfl
  · rw [Actor.checked, Actor.checked, Actor.working, Actor.working, ht]
    cases (s.actors t).stage <;> cases result <;> first | exact id | exact nofun

/-- `NotifyExitSync` is not for the worker itself: it goes on only if the name is another's. -/
theorem Inv.test (h : Inv s) (ht : (s.actors t).pc = .test) (hother : s.thread ≠ some t) :
    Inv (s.goto t (.lock (.method .notifyExitSync))) := by
  refine h.between (x := ⟨(s.actors t).stage, .lock (.method .notifyExitSync)⟩) rfl rfl rfl rfl
    (by rw [ht]; rfl) rfl ?_ nofun (h.shaped_goto ht rfl) ?_ ?_
  · rw [Actor.working, Actor.working, ht]
    rfl
  · unfold Actor.checked Actor.working
    simp only [ht, Bool.and_eq_true, Bool.or_eq_true]
    exact fun hc => hc.imp_right fun hor => hor.imp_right fun hand => hand.imp_right fun _ => rfl
  · intro hrun
    refine absurd (h.checked t ?_) hother
    rw [Actor.checked, Actor.working, ht, show (s.actors t).stage = .run from hrun]
    rfl

theorem Inv.go (h : Inv s) (t : ι) (created : Option ι) : Inv (s.go t created) := by
  unfold State.go
  cases ht : (s.actors t).pc with
  | out => exact h.next ht
  | asleep => exact h
  | lock c => exact h.lockBody ht
  | body c => exact h.body ht
  | create => exact h.create_or_fail ht created
  | assign worker => exact h.assign ht
  | fail => exact h.fail ht
  | test =>
      show Inv (if _ then _ else _)
      split
      · exact h.goto ht rfl rfl rfl rfl rfl rfl rfl rfl (fun _ => rfl) nofun nofun nofun
      · rename_i hother
        exact h.test ht hother
  | loop => exact h.loop ht
  | notified | awake =>
      exact h.lock (fun _ => h.plain ht rfl rfl rfl (fun _ => rfl) (fun _ => rfl) nofun nofun) rfl
  | notifyAll => exact h.notifyAll ht
  | unlock c r =>
      refine h.leave (h.plain ht ?_ rfl rfl (fun _ => rfl) nofun nofun nofun) (by rw [ht]; rfl) rfl
      cases c with
      | method m => rfl
      | iteration =>
          cases r with
          | flag last => cases last <;> rfl
          | status | done => rfl
  | back c r => exact h.back ht

theorem Inv.step (h : Inv s) (a : ι × Act ι) : Inv (s.step a) := by
  obtain ⟨t, a⟩ := a
  cases a with
  | call m =>
      unfold State.step
      simp only
      split
      · rename_i ht
        split
        · rename_i hfree
          exact h.call ht hfree m
        · exact h
      · exact h
  | finish result =>
      unfold State.step
      simp only
      split
      · rename_i ht
        exact h.finish ht result
      · exact h
  | go created => exact h.go t created
  | spurious =>
      unfold State.step
      simp only
      split
      · rename_i ht
        exact h.goto ht rfl rfl rfl rfl rfl rfl rfl rfl (fun _ => rfl) (fun _ => rfl) nofun nofun
      · exact h

/-! ## Runs -/

omit [DecidableEq ι] in
theorem Inv.new (clients : ι → Bool) : Inv (State.new clients) := by
  have hidle : ∀ t, ((State.new clients).actors t).working = false := by
    intro t
    show (_ && _) = false
    cases hc : clients t <;> simp [hc, State.new, Stage.worker]
  refine ⟨fun t => iff_of_false nofun nofun, ⟨none, fun t => iff_of_false ?_ nofun, rfl⟩, nofun, nofun,
    fun t ht => ?_, nofun, fun t ht => ?_, nofun, nofun, fun _ _ => rfl, nofun⟩
  · rw [Actor.claims, hidle]
    exact nofun
  · rw [hidle] at ht
    cases ht
  · have hworking := Actor.working_of_checked ht
    rw [hidle] at hworking
    cases hworking

theorem Inv.run (h : Inv s) (as : List (ι × Act ι)) : Inv (s.run as) := by
  induction as generalizing s with
  | nil => exact h
  | cons a as ih => exact ih (h.step a)

/-- **No lost wake-up.** While a thread sleeps in `NotifyExitSync` and has not been notified, and the
mutex is free, there is a thread in `ThreadStart`, whose name is known, and it does not wait itself
unless it has called `NotifyExitSync` in `ReadyToWork`: in `Run` that call returns at once. -/
theorem no_lost_wakeup (clients : ι → Bool) (as : List (ι × Act ι)) {s : State ι}
    (hs : (State.new clients).run as = s) :
    (∀ t, (s.actors t).pc = .asleep → s.owner = none → ∃ worker, s.thread = some worker ∧
      (s.actors worker).working = true ∧
        ((s.actors worker).stage ≠ .readyToWork → (s.actors worker).pc.waits = false)) ∧
      ∀ t, (s.actors t).stage = .run → (s.actors t).pc.waits = false := by
  have h : Inv s := hs ▸ (Inv.new clients).run as
  refine ⟨fun t ht hfree => ?_, h.unblocked⟩
  have hspecial : ∀ u, (s.actors u).pc.special = none := by
    intro u
    cases hp : (s.actors u).pc.special with
    | none => rfl
    | some p =>
        have hinside := h.mutex.outside hfree u
        rw [Actor.inside, Pc.inside_of_special hp] at hinside
        cases hinside
  have hrunning : s.running = true := by
    rcases h.asleep t ht with ⟨hrun, -⟩ | ⟨u, hu⟩
    · exact hrun
    · rw [hspecial u] at hu
      cases hu
  obtain ⟨claimer, hguarded, hclaimer⟩ := h.running
  rw [hrunning] at hclaimer
  obtain ⟨worker, rfl⟩ := Option.isSome_iff_exists.1 hclaimer.symm
  have hclaims := (hguarded worker).2 rfl
  have hworking : (s.actors worker).working = true := by
    rw [Actor.claims, Bool.or_eq_true, Pc.creates_iff, hspecial worker] at hclaims
    exact hclaims.resolve_right nofun
  refine ⟨worker, h.named_of_free hfree hworking, hworking, fun hready => ?_⟩
  rw [Bool.eq_false_iff]
  intro hwaits
  have hsection : (s.actors worker).pc.section? = some (.method .notifyExitSync) := by
    revert hwaits
    cases (s.actors worker).pc with
    | lock c | body c | unlock c _ =>
        cases c with
        | iteration => exact nofun
        | method m => cases m <;> first | exact fun _ => rfl | exact nofun
    | loop | asleep | notified | awake => exact fun _ => rfl
    | _ => exact nofun
  have hmay := h.shaped worker _ hsection
  cases hstage : (s.actors worker).stage with
  | run =>
      have hrun := h.unblocked worker hstage
      rw [hwaits] at hrun
      cases hrun
  | readyToWork => exact hready hstage
  | client =>
      rw [Actor.working, hstage] at hworking
      cases hworking
  | absent | first | iterated =>
      rw [hstage] at hmay
      cases hmay

end

def creator (t : Nat) : Bool := t = 0

/-- The thread 0 starts the thread 1, which gets to `Run`, and waits for it. -/
def startAndWait : List (Nat × Act Nat) :=
  [(0, .call .start), (0, .go none), (0, .go none), (0, .go (some 1)), (0, .go none), (0, .go none),
    (0, .go none), (1, .finish true), (1, .go none), (1, .go none), (1, .go none), (1, .go none),
    (1, .go none), (0, .call .notifyExitSync), (0, .go none), (0, .go none), (0, .go none),
    (0, .go none)]

def waiting : State Nat := (State.new creator).run startAndWait

theorem waiting_eq : (State.new creator).run startAndWait = waiting := rfl

theorem no_lost_wakeup_waiting : (waiting.actors 0).pc = .asleep ∧ ∃ worker,
    waiting.thread = some worker ∧ (waiting.actors worker).working = true := by
  have hasleep : (waiting.actors 0).pc = .asleep := by decide +kernel
  obtain ⟨worker, hthread, hworking, -⟩ :=
    (no_lost_wakeup creator startAndWait waiting_eq).1 0 hasleep (by decide +kernel)
  exact ⟨hasleep, worker, hthread, hworking⟩

end CUtils.ThreadEx
