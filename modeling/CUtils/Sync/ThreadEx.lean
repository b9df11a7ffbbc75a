import CUtils.Lib.Threads
import CUtils.Lib.StateRun

/-!
# A thread that can be told to exit

`Thread::Start` creates a thread that calls `Run` until it returns `false` or the exit is pending;
`NotifyExitSync` waits for that. The derived class and the other threads of the program are not
known: the ones call any method at any time, `ReadyToWork` and `Run` call any method, of the same
object too, and return what they like.

A step of a thread is what it does between two points at which others can come in: taking the mutex,
the part under it, giving it back, falling asleep, `pthread_create` and its return. `cv.wait` may
return without a notification. The name of a thread is free again when the thread has ended.
-/

namespace CUtils.ThreadEx

inductive ThreadStatus
  | ok
  | wouldBlock
  | invalidOperation
  | unknownError
deriving DecidableEq

inductive Method
  | start
  | notifyExitSync
  | notifyExitAsync
  | isExitPending
  | isRunning
deriving DecidableEq

/-- What is done under the mutex: a method, or the end of an iteration of `ThreadStart`. -/
inductive Section
  | method (m : Method)
  | iteration
deriving DecidableEq

/-- What a section comes to; that of an iteration is whether it was the last one. -/
inductive Result
  | status (status : ThreadStatus)
  | flag (b : Bool)
  | done
deriving DecidableEq

/-- Where a thread is, apart from the call it may be in. -/
inductive Stage
  /-- There is no such thread. -/
  | absent
  /-- A thread that has not been created by `Start`. -/
  | client
  -- `ThreadStart`
  | readyToWork
  /-- Between `ReadyToWork` and what `IsExitPending` returns. -/
  | first
  | run
  /-- After `Run`, or instead of it. -/
  | iterated (result : Bool)
deriving DecidableEq

/-- The next step of a call. -/
inductive Pc (ι : Type)
  | out
  | lock (c : Section)
  | body (c : Section)
  -- `Start`
  | create
  | assign (worker : ι)
  | fail
  -- `NotifyExitSync`
  | test
  | loop
  /-- In `cvThreadExited_.wait`, not notified. -/
  | asleep
  /-- Notified; it has to get the mutex again. -/
  | notified
  /-- Woken up without a notification. -/
  | awake
  -- `ThreadStart`
  | notifyAll
  | unlock (c : Section) (r : Result)
  | back (c : Section) (r : Result)
deriving DecidableEq

structure Actor (ι : Type) where
  stage : Stage
  pc : Pc ι

/-- What `notify_all` makes of a thread. -/
def Actor.wake {ι : Type} (a : Actor ι) : Actor ι :=
  match a.pc with
  | .asleep => ⟨a.stage, .notified⟩
  | _ => a

structure State (ι : Type) where
  /-- `none` is `INVALID_PTHREAD_T`. -/
  thread : Option ι
  status : ThreadStatus
  exitPending : Bool
  running : Bool
  /-- Who has the mutex. -/
  owner : Option ι
  actors : ι → Actor ι
  /-- How often `Start` has got past its test, and how often `Run` has been called. -/
  starts : Nat
  runs : Nat

inductive Act (ι : Type)
  | call (m : Method)
  /-- `ReadyToWork` or `Run` returns. -/
  | finish (result : Bool)
  /-- The next step; `pthread_create` makes the thread `created`, or it fails. -/
  | go (created : Option ι)
  | spurious

/-- `ReadyToWork` or `Run` has returned. -/
def Stage.finish (result : Bool) : Stage → Stage
  | .readyToWork => if result then .first else .iterated false
  | .run => .iterated result
  | stage => stage

/-- Where a section that has come to `r` leaves a thread. -/
def Stage.after (r : Result) : Stage → Stage
  | .first => match r with
      | .flag pending => if pending then .iterated false else .run
      | _ => .first
  | .iterated result => match r with
      | .flag last => if last then .absent else .run
      | _ => .iterated result
  | stage => stage

/-- The code that is not known has the word. -/
def Stage.free : Stage → Bool
  | .client | .readyToWork | .run => true
  | _ => false

/-- `ThreadStart` goes on by itself. -/
def Stage.next {ι : Type} : Stage → Pc ι
  | .first => .lock (.method .isExitPending)
  | .iterated _ => .lock .iteration
  | _ => .out

namespace State

variable {ι : Type} [DecidableEq ι]

/-- `Thread()`; the threads are those of the program. -/
def new (clients : ι → Bool) : State ι where
  thread := none
  status := .ok
  exitPending := false
  running := false
  owner := none
  actors t := ⟨if clients t then .client else .absent, .out⟩
  starts := 0
  runs := 0

def become (s : State ι) (t : ι) (a : Actor ι) : State ι := { s with actors := Function.update s.actors t a }

def goto (s : State ι) (t : ι) (pc : Pc ι) : State ι := s.become t ⟨(s.actors t).stage, pc⟩

def lock (s : State ι) (t : ι) (pc : Pc ι) : State ι :=
  match s.owner with
  | none => { s with owner := some t }.goto t pc
  | some _ => s

/-- `pthread_create`. -/
def create (s : State ι) (t : ι) : Option ι → State ι
  | some worker =>
      match (s.actors worker).stage with
      | .absent => (s.become worker ⟨.readyToWork, .out⟩).goto t (.assign worker)
      | _ => s.goto t .fail
  | none => s.goto t .fail

/-- The end of an iteration. -/
def iterate (s : State ι) (t : ι) (result : Bool) : State ι :=
  if !result || s.exitPending then
    { s with exitPending := true, running := false, thread := none }.goto t .notifyAll
  else s.goto t (.unlock .iteration (.flag false))

/-- A section that has the mutex. -/
def body (s : State ι) (t : ι) : Section → State ι
  | .method .start =>
      if s.running then s.goto t (.unlock (.method .start) (.status .invalidOperation))
      else
        { s with
          status := .ok, exitPending := false, thread := none, running := true
          starts := s.starts + 1 }.goto t .create
  | .method .notifyExitSync => { s with exitPending := true }.goto t .loop
  | .method .notifyExitAsync =>
      { s with exitPending := true }.goto t (.unlock (.method .notifyExitAsync) .done)
  | .method .isExitPending => s.goto t (.unlock (.method .isExitPending) (.flag s.exitPending))
  | .method .isRunning => s.goto t (.unlock (.method .isRunning) (.flag s.running))
  | .iteration =>
      match (s.actors t).stage with
      | .iterated result => s.iterate t result
      | _ => s

/-- `while (running_)` in `NotifyExitSync`. -/
def loop (s : State ι) (t : ι) : State ι :=
  if s.running then { s with owner := none }.goto t .asleep
  else { s with exitPending := false }.goto t (.unlock (.method .notifyExitSync) (.status s.status))

/-- A section has been left. -/
def back (s : State ι) (t : ι) (r : Result) : State ι :=
  let stage := (s.actors t).stage.after r
  let called := stage = .run ∧ (s.actors t).stage ≠ .run
  { s with runs := s.runs + if called then 1 else 0 }.become t ⟨stage, .out⟩

def go (s : State ι) (t : ι) (created : Option ι) : State ι :=
  match (s.actors t).pc with
  | .out => s.goto t (s.actors t).stage.next
  | .asleep => s
  | .lock c => s.lock t (.body c)
  | .body c => s.body t c
  | .create => s.create t created
  | .assign worker =>
      { s with thread := some worker }.goto t (.unlock (.method .start) (.status .ok))
  | .fail =>
      { s with status := .unknownError, running := false, thread := none }.goto t
        (.unlock (.method .start) (.status .unknownError))
  | .test =>
      if s.thread = some t then s.goto t (.back (.method .notifyExitSync) (.status .wouldBlock))
      else s.goto t (.lock (.method .notifyExitSync))
  | .loop => s.loop t
  | .notified | .awake => s.lock t .loop
  | .notifyAll =>
      { s with actors := fun u => (s.actors u).wake }.goto t (.unlock .iteration (.flag true))
  | .unlock c r => { s with owner := none }.goto t (.back c r)
  | .back _ r => s.back t r

/-- The first step of a call. -/
def enter : Method → Pc ι
  | .notifyExitSync => .test
  | m => .lock (.method m)

def step (s : State ι) : ι × Act ι → State ι
  | (t, .call m) =>
      match (s.actors t).pc with
      | .out => if (s.actors t).stage.free then s.goto t (enter m) else s
      | _ => s
  | (t, .finish result) =>
      match (s.actors t).pc with
      | .out => s.become t ⟨(s.actors t).stage.finish result, .out⟩
      | _ => s
  | (t, .go created) => s.go t created
  | (t, .spurious) =>
      match (s.actors t).pc with
      | .asleep => s.goto t .awake
      | _ => s

def run (s : State ι) (as : List (ι × Act ι)) : State ι := as.foldl step s

end State

end CUtils.ThreadEx
