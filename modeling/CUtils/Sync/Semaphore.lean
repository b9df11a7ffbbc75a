import CUtils.Lib.Threads
import CUtils.Lib.StateRun

/-!
# Semaphores

`Wait` takes a permit and sleeps, once, if there was none; `Post` gives one back and wakes up a
sleeper if there is one. A step of a thread is what it does between two points at which others can
come in: taking the mutex, the part under it, giving it back, falling asleep. `cv_.wait` may return
without a notification (`Act.spurious`).

`permits` says that no more calls of `Wait` return than there are permits, as long as none of them
wakes up so.
-/

namespace CUtils.Semaphores

open Finset Threads StateRun

/-- The next step of a thread. -/
inductive Pc
  | idle
  -- `Wait`
  | waitLock
  | waitBody
  /-- In `cv_.wait`, not notified. -/
  | asleep
  /-- Notified by `Post`; it has to get the mutex again. -/
  | notified
  /-- Woken up without a notification. -/
  | awake
  | waitUnlock
  -- `Post`
  | postLock
  | postBody
  | postNotify
  | postUnlock
deriving DecidableEq

def Pc.inside : Pc → Bool
  | .waitBody | .waitUnlock | .postBody | .postNotify | .postUnlock => true
  | _ => false

structure State (ι : Type) where
  count : Int
  /-- Who has the mutex. -/
  owner : Option ι
  threads : ι → Pc
  /-- The calls of `Wait` that have returned. -/
  completed : Nat
  /-- The calls of `Post` that have added to the count. -/
  posts : Nat

inductive Act (ι : Type)
  | wait
  | post
  /-- The next step; `notify_one` wakes up `woken`. -/
  | go (woken : ι)
  | spurious

namespace State

variable {ι : Type} [DecidableEq ι]

/-- `Semaphore(value)`. -/
def new (value : Int) : State ι where
  count := value
  owner := none
  threads _ := .idle
  completed := 0
  posts := 0

def goto (s : State ι) (t : ι) (pc : Pc) : State ι := { s with threads := Function.update s.threads t pc }

def lock (s : State ι) (t : ι) (pc : Pc) : State ι :=
  match s.owner with
  | none => { s with owner := some t }.goto t pc
  | some _ => s

variable [Fintype ι]

/-- `notify_one`, and what `t` does next. If nobody sleeps it does nothing. -/
def notifyOne (s : State ι) (t woken : ι) (pc : Pc) : State ι :=
  if ∃ u, s.threads u = .asleep then
    if s.threads woken = .asleep then (s.goto woken .notified).goto t pc else s
  else s.goto t pc

def go (s : State ι) (t woken : ι) : State ι :=
  match s.threads t with
  | .idle | .asleep => s
  | .waitLock => s.lock t .waitBody
  | .waitBody =>
      let s : State ι := { s with count := int (s.count - 1) }
      if s.count < 0 then { s with owner := none }.goto t .asleep else s.goto t .waitUnlock
  | .notified | .awake => s.lock t .waitUnlock
  | .waitUnlock => { s with owner := none, completed := s.completed + 1 }.goto t .idle
  | .postLock => s.lock t .postBody
  | .postBody =>
      let s : State ι := { s with count := int (s.count + 1), posts := s.posts + 1 }
      if s.count ≤ 0 then s.goto t .postNotify else s.goto t .postUnlock
  | .postNotify => s.notifyOne t woken .postUnlock
  | .postUnlock => { s with owner := none }.goto t .idle

def step (s : State ι) : ι × Act ι → State ι
  | (t, .wait) => if s.threads t = .idle then s.goto t .waitLock else s
  | (t, .post) => if s.threads t = .idle then s.goto t .postLock else s
  | (t, .go woken) => s.go t woken
  | (t, .spurious) => if s.threads t = .asleep then s.goto t .awake else s

def run (s : State ι) (as : List (ι × Act ι)) : State ι := as.foldl step s

end State

/-! ## The count -/

/-- A call of `Wait` that has taken from the count and has not returned. -/
def Pc.entered : Pc → Nat
  | .asleep | .notified | .awake | .waitUnlock => 1
  | _ => 0

def Pc.sleeps : Pc → Nat
  | .asleep => 1
  | _ => 0

/-- A call of `Post` that is about to notify. -/
def Pc.notifies : Pc → Nat
  | .postNotify => 1
  | _ => 0

variable {ι : Type} [DecidableEq ι] [Fintype ι] {s : State ι} {t : ι}

/-- The count is what has been given less what has been taken, and below zero it is the number of
the sleepers that have no notification coming. -/
structure Inv (value : Int) (s : State ι) : Prop where
  count : s.count + s.completed + ∑ u, (s.threads u).entered = value + s.posts
  sleepers : ∑ u, (s.threads u).sleeps = (-s.count).toNat + ∑ u, (s.threads u).notifies
  range : -2 ^ 31 ≤ s.count ∧ s.count < 2 ^ 31

omit [DecidableEq ι] in
/-- Threads leave places and come to others, and the counts change along with it. -/
theorem Inv.moves {value : Int} {s' : State ι} (h : Inv value s) (lost gained : (Pc → Nat) → Nat)
    (hsums : ∀ f : Pc → Nat, ∑ u, f (s'.threads u) + lost f = ∑ u, f (s.threads u) + gained f)
    (hcount : s'.count + s'.completed + gained Pc.entered + s.posts =
      s.count + s.completed + lost Pc.entered + s'.posts)
    (hsleepers : gained Pc.sleeps + (-s.count).toNat + lost Pc.notifies =
      lost Pc.sleeps + (-s'.count).toNat + gained Pc.notifies)
    (hrange : -2 ^ 31 ≤ s'.count ∧ s'.count < 2 ^ 31) : Inv value s' := by
  have hc := h.count
  have hz := h.sleepers
  have hentered := hsums Pc.entered
  have hsleeps := hsums Pc.sleeps
  have hnotifies := hsums Pc.notifies
  exact ⟨by omega, by omega, hrange⟩

theorem sums_goto {x : Pc} (hx : s.threads t = x) (y : Pc) (f : Pc → Nat) :
    ∑ u, f ((s.goto t y).threads u) + f x = ∑ u, f (s.threads u) + f y := by
  rw [← hx]
  exact sum_update f s.threads t y

theorem Inv.goto {value : Int} {x y : Pc} (h : Inv value s) (hx : s.threads t = x)
    (he : x.entered = y.entered) (hs : y.sleeps + x.notifies = x.sleeps + y.notifies) :
    Inv value (s.goto t y) := by
  refine h.moves (fun f => f x) (fun f => f y) (sums_goto hx y) ?_ ?_ h.range
  · show s.count + (s.completed : Int) + _ + _ = _ + _ + _ + (s.posts : Int)
    rw [he]
  · show _ + _ + _ = _ + (-s.count).toNat + _
    omega

theorem Inv.lock {value : Int} {x y : Pc} (h : Inv value s) (hx : s.threads t = x)
    (he : x.entered = y.entered) (hs : y.sleeps + x.notifies = x.sleeps + y.notifies) :
    Inv value (s.lock t y) := by
  unfold State.lock
  cases s.owner with
  | none =>
      have hgoto := h.goto hx he hs
      exact ⟨hgoto.count, hgoto.sleepers, hgoto.range⟩
  | some u => exact h

/-- `--count_`: below zero there is one sleeper more. -/
theorem Inv.waitBody {value : Int} (h : Inv value s) (ht : s.threads t = .waitBody)
    (hroom : -2 ^ 31 < s.count) (woken : ι) : Inv value (s.go t woken) := by
  have hrange := h.range
  have hint : int (s.count - 1) = s.count - 1 := int_eq (by omega) (by omega)
  unfold State.go
  simp only [ht, hint]
  split
  · refine h.moves (fun f => f .waitBody) (fun f => f .asleep) (sums_goto ht _) ?_ ?_ ?_
    · simp only [State.goto, Pc.entered]
      omega
    · simp only [State.goto, Pc.sleeps, Pc.notifies]
      omega
    · show -2 ^ 31 ≤ s.count - 1 ∧ s.count - 1 < 2 ^ 31
      omega
  · refine h.moves (fun f => f .waitBody) (fun f => f .waitUnlock) (sums_goto ht _) ?_ ?_ ?_
    · simp only [State.goto, Pc.entered]
      omega
    · simp only [State.goto, Pc.sleeps, Pc.notifies]
      omega
    · show -2 ^ 31 ≤ s.count - 1 ∧ s.count - 1 < 2 ^ 31
      omega

/-- `++count_`: if it was below zero, one of the sleepers will be notified. -/
theorem Inv.postBody {value : Int} (h : Inv value s) (ht : s.threads t = .postBody)
    (hroom : s.count + 1 < 2 ^ 31) (woken : ι) : Inv value (s.go t woken) := by
  have hrange := h.range
  have hint : int (s.count + 1) = s.count + 1 := int_eq (by omega) (by omega)
  unfold State.go
  simp only [ht, hint]
  split
  · refine h.moves (fun f => f .postBody) (fun f => f .postNotify) (sums_goto ht _) ?_ ?_ ?_
    · simp only [State.goto, Pc.entered]
      omega
    · simp only [State.goto, Pc.sleeps, Pc.notifies]
      omega
    · show -2 ^ 31 ≤ s.count + 1 ∧ s.count + 1 < 2 ^ 31
      omega
  · refine h.moves (fun f => f .postBody) (fun f => f .postUnlock) (sums_goto ht _) ?_ ?_ ?_
    · simp only [State.goto, Pc.entered]
      omega
    · simp only [State.goto, Pc.sleeps, Pc.notifies]
      omega
    · show -2 ^ 31 ≤ s.count + 1 ∧ s.count + 1 < 2 ^ 31
      omega

/-- There is a sleeper to be notified. -/
theorem Inv.postNotify {value : Int} (h : Inv value s) (ht : s.threads t = .postNotify) (woken : ι) :
    Inv value (s.notifyOne t woken .postUnlock) := by
  unfold State.notifyOne
  split
  · split
    · rename_i hwoken
      have hne : t ≠ woken := by
        rintro rfl
        rw [ht] at hwoken
        cases hwoken
      refine h.moves (fun f => f .postNotify + f .asleep) (fun f => f .postUnlock + f .notified)
        (fun f => ?_) ?_ ?_ ?_
      · have hsum := sum_update_two f s.threads hne .postUnlock .notified
        rw [ht, hwoken] at hsum
        exact hsum
      · simp only [State.goto, Pc.entered]
      · simp only [State.goto, Pc.sleeps, Pc.notifies]
        omega
      · exact h.range
    · exact h
  · rename_i hnone
    exfalso
    have hz := h.sleepers
    have hle := le_sum Pc.notifies s.threads t
    have hzero : ∑ u, (s.threads u).sleeps = 0 := by
      refine Finset.sum_eq_zero fun u _ => ?_
      cases hu : s.threads u <;> first | rfl | exact absurd ⟨u, hu⟩ hnone
    have hone : (s.threads t).notifies = 1 := congrArg Pc.notifies ht
    omega

/-! ## Runs -/

/-- `cv_.wait` does not return without a notification, and the count does not leave the range of
`int`. -/
def Regular (s : State ι) : ι × Act ι → Prop
  | (t, .spurious) => s.threads t ≠ .asleep
  | (t, .go _) => (s.threads t = .waitBody → -2 ^ 31 < s.count) ∧
      (s.threads t = .postBody → s.count + 1 < 2 ^ 31)
  | (_, .wait) | (_, .post) => True

theorem Inv.step {value : Int} (a : ι × Act ι) (ha : Regular s a) (h : Inv value s) :
    Inv value (s.step a) := by
  obtain ⟨t, a⟩ := a
  cases a with
  | wait =>
      show Inv value (if _ then _ else _)
      split
      · rename_i ht
        exact h.goto ht rfl rfl
      · exact h
  | post =>
      show Inv value (if _ then _ else _)
      split
      · rename_i ht
        exact h.goto ht rfl rfl
      · exact h
  | spurious =>
      show Inv value (if _ then _ else _)
      rw [if_neg ha]
      exact h
  | go woken =>
      show Inv value (s.go t woken)
      cases ht : s.threads t with
      | waitBody => exact h.waitBody ht (ha.1 ht) woken
      | postBody => exact h.postBody ht (ha.2 ht) woken
      | idle =>
          rw [State.go, ht]
          exact h
      | asleep =>
          rw [State.go, ht]
          exact h
      | waitLock =>
          rw [State.go, ht]
          exact h.lock ht rfl rfl
      | notified =>
          rw [State.go, ht]
          exact h.lock ht rfl rfl
      | awake =>
          rw [State.go, ht]
          exact h.lock ht rfl rfl
      | postLock =>
          rw [State.go, ht]
          exact h.lock ht rfl rfl
      | waitUnlock =>
          rw [State.go, ht]
          refine h.moves (fun f => f .waitUnlock) (fun f => f .idle) (sums_goto ht _) ?_ ?_ h.range
          · simp only [State.goto, Pc.entered]
            omega
          · simp only [State.goto, Pc.sleeps, Pc.notifies]
      | postNotify =>
          rw [State.go, ht]
          exact h.postNotify ht woken
      | postUnlock =>
          rw [State.go, ht]
          have hgoto := h.goto (y := .idle) ht rfl rfl
          exact ⟨hgoto.count, hgoto.sleepers, hgoto.range⟩

omit [DecidableEq ι] in
theorem Inv.new {value : Int} (hlo : 0 ≤ value) (hhi : value < 2 ^ 31) :
    Inv value (State.new value : State ι) where
  count := by
    show value + 0 + ((∑ _u : ι, 0 : Nat) : Int) = value + 0
    simp
  sleepers := by
    show ∑ _u : ι, 0 = (-value).toNat + ∑ _u : ι, 0
    simp
    omega
  range := ⟨by show -2 ^ 31 ≤ value; omega, hhi⟩

/-- **Permits are counted**: no more calls of `Wait` return than there were permits at first and
`Post` has given. -/
theorem permits {value : Int} (hlo : 0 ≤ value) (hhi : value < 2 ^ 31) (as : List (ι × Act ι))
    (has : Along Regular State.step (State.new value) as) :
    (((State.new value).run as).completed : Int) ≤ value + ((State.new value).run as).posts := by
  have hinv : Inv value ((State.new value).run as) :=
    has.invariant (I := Inv value) (fun s a ha h => h.step a ha) (Inv.new hlo hhi)
  have hc := hinv.count
  have hz := hinv.sleepers
  have hle : ∑ u, (((State.new value).run as).threads u).sleeps ≤
      ∑ u, (((State.new value).run as).threads u).entered := by
    refine Finset.sum_le_sum fun u _ => ?_
    cases ((State.new value).run as).threads u <;> decide
  omega

/-- One thread sleeps until the other posts. -/
def handOver : List (Bool × Act Bool) :=
  [(true, .wait), (true, .go true), (true, .go true), (false, .post), (false, .go true),
    (false, .go true), (false, .go true), (false, .go true), (true, .go true), (true, .go true)]

theorem permits_handOver :
    ((State.new 0).run handOver).completed = 1 ∧
      (((State.new 0).run handOver).completed : Int) ≤ 0 + ((State.new 0).run handOver).posts := by
  refine ⟨by decide, permits (by decide) (by decide) handOver ?_⟩
  repeat' constructor
  all_goals decide

/-- A `Wait` that wakes up by itself takes a permit that nobody has given. -/
theorem spurious_permit : ¬ ∀ as : List (Unit × Act Unit),
    (((State.new 0).run as).completed : Int) ≤ 0 + ((State.new 0).run as).posts := by
  intro h
  exact absurd (h [((), .wait), ((), .go ()), ((), .go ()), ((), .spurious), ((), .go ()),
    ((), .go ())]) (by decide)

end CUtils.Semaphores
