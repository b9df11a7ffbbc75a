import CUtils.Lib.Threads
import CUtils.Lib.StateRun

/-!
# Blocking queues

`SafeBlockQueue` and `SafeBlockQueueTracking`, which counts the tasks that have been pushed and not
reported done. Both have one mutex; the tracking `Push` counts before it takes it. A step of a
thread is an access to the count, the part of a call under the mutex between two such accesses, a
notification, or the taking or giving back of the mutex. A wait may end without a notification.

`cv.wait(lock, pred)` looks at `pred` under the mutex, as the loop around it does, before and after
it sleeps; one look stands for both.
-/

namespace CUtils.BlockQueues

open Threads

/-- The condition variables. -/
inductive Cv
  | notEmpty
  | notFull
  | allTasksDone
deriving DecidableEq

/-- The calls; the last two are those of `SafeBlockQueueTracking`. -/
inductive Call (α : Type)
  | push (elem : α)
  | pop
  | pushNoWait (elem : α)
  | popNotWait
  | oneTaskDone
  | join

/-- What a call waits for. -/
def Call.cv {α : Type} : Call α → Option Cv
  | .push _ => some .notFull
  | .pop => some .notEmpty
  | .join => some .allTasksDone
  | .pushNoWait _ | .popNotWait | .oneTaskDone => none

/-- The next step of a thread. -/
inductive Pc (α : Type)
  | idle
  /-- `unfinishedTaskCount_++` of the tracking `Push`. -/
  | increment (elem : α)
  | lock (call : Call α)
  /-- It has the mutex and looks at the queue or at the count. -/
  | body (call : Call α)
  /-- In a wait, not notified. -/
  | asleep (call : Call α)
  /-- Notified; it has to get the mutex again. -/
  | notified (call : Call α)
  /-- Woken up without a notification. -/
  | awake (call : Call α)
  /-- `unfinishedTaskCount_++` of the tracking `PushNoWait`. -/
  | count
  | notify (cv : Cv)
  -- `OneTaskDone` has read the count
  | notifyAll (unfinished : Int)
  | store (unfinished : Int)
  | unlock

namespace Pc

variable {α : Type}

def inside : Pc α → Bool
  | .body _ | .count | .notify _ | .notifyAll _ | .store _ | .unlock => true
  | .idle | .increment _ | .lock _ | .asleep _ | .notified _ | .awake _ => false

/-- Asleep on `cv`, not notified. -/
def sleepsOn (cv : Cv) : Pc α → Bool
  | .asleep call => call.cv = some cv
  | _ => false

/-- What `notify_all` on `cv` makes of a thread. -/
def wake (cv : Cv) : Pc α → Pc α
  | .asleep call => if call.cv = some cv then .notified call else .asleep call
  | pc => pc

end Pc

structure State (ι α : Type) where
  maxSize : Nat
  /-- It is a `SafeBlockQueueTracking`. -/
  tracking : Bool
  queue : List α
  unfinishedTaskCount : Int
  /-- Who has the mutex. -/
  owner : Option ι
  threads : ι → Pc α
  /-- What has been pushed and popped so far. -/
  pushed : List α
  popped : List α
  /-- How often the count has been incremented. -/
  increments : Nat
  /-- How many calls of `OneTaskDone` have returned `true`. -/
  tasksDone : Nat

inductive Act (ι α : Type)
  | call (call : Call α)
  /-- The next step; `notify_one` wakes up `woken`. -/
  | go (woken : ι)
  | spurious

namespace State

variable {ι α : Type} [DecidableEq ι]

def new (maxSize : Nat) (tracking : Bool) : State ι α where
  maxSize := maxSize
  tracking := tracking
  queue := []
  unfinishedTaskCount := 0
  owner := none
  threads _ := .idle
  pushed := []
  popped := []
  increments := 0
  tasksDone := 0

def goto (s : State ι α) (t : ι) (pc : Pc α) : State ι α :=
  { s with threads := Function.update s.threads t pc }

def lock (s : State ι α) (t : ι) (pc : Pc α) : State ι α :=
  match s.owner with
  | none => { s with owner := some t }.goto t pc
  | some _ => s

/-- The mutex is given back until the wait is over. -/
def sleep (s : State ι α) (t : ι) (call : Call α) : State ι α :=
  { s with owner := none }.goto t (.asleep call)

def increment (s : State ι α) : State ι α :=
  { s with
    unfinishedTaskCount := int (s.unfinishedTaskCount + 1)
    increments := s.increments + 1 }

def enqueue (s : State ι α) (elem : α) : State ι α :=
  { s with queue := s.queue ++ [elem], pushed := s.pushed ++ [elem] }

def dequeue (s : State ι α) (elem : α) (rest : List α) : State ι α :=
  { s with queue := rest, popped := s.popped ++ [elem] }

/-- A call that has the mutex. -/
def body (s : State ι α) (t : ι) : Call α → State ι α
  | .push elem =>
      if s.queue.length ≥ s.maxSize then s.sleep t (.push elem)
      else (s.enqueue elem).goto t (.notify .notEmpty)
  | .pop =>
      match s.queue with
      | [] => s.sleep t .pop
      | elem :: rest => (s.dequeue elem rest).goto t (.notify .notFull)
  | .pushNoWait elem =>
      if s.queue.length ≥ s.maxSize then s.goto t .unlock
      else (s.enqueue elem).goto t (if s.tracking then .count else .notify .notEmpty)
  | .popNotWait =>
      match s.queue with
      | [] => s.goto t .unlock
      | elem :: rest => (s.dequeue elem rest).goto t (.notify .notFull)
  | .oneTaskDone =>
      let unfinished := int (s.unfinishedTaskCount - 1)
      if unfinished ≤ 0 then
        if unfinished < 0 then s.goto t .unlock else s.goto t (.notifyAll unfinished)
      else s.goto t (.store unfinished)
  | .join => if s.unfinishedTaskCount = 0 then s.goto t .unlock else s.sleep t .join

variable [Fintype ι]

/-- `notify_one`. If nobody sleeps it does nothing. -/
def notifyOne (s : State ι α) (t woken : ι) (cv : Cv) : State ι α :=
  if ∃ u, (s.threads u).sleepsOn cv = true then
    if (s.threads woken).sleepsOn cv = true then
      (s.goto woken ((s.threads woken).wake cv)).goto t .unlock
    else s
  else s.goto t .unlock

def go (s : State ι α) (t woken : ι) : State ι α :=
  match s.threads t with
  | .idle | .asleep _ => s
  | .increment elem => s.increment.goto t (.lock (.push elem))
  | .lock call | .notified call | .awake call => s.lock t (.body call)
  | .body call => s.body t call
  | .count => s.increment.goto t (.notify .notEmpty)
  | .notify cv => s.notifyOne t woken cv
  | .notifyAll unfinished =>
      { s with threads := fun u => (s.threads u).wake .allTasksDone }.goto t (.store unfinished)
  | .store unfinished =>
      { s with unfinishedTaskCount := unfinished, tasksDone := s.tasksDone + 1 }.goto t .unlock
  | .unlock => { s with owner := none }.goto t .idle

/-- What an idle thread begins. -/
def start (s : State ι α) (t : ι) : Call α → State ι α
  | .push elem => s.goto t (if s.tracking then .increment elem else .lock (.push elem))
  | .oneTaskDone => if s.tracking then s.goto t (.lock .oneTaskDone) else s
  | .join => if s.tracking then s.goto t (.lock .join) else s
  | call => s.goto t (.lock call)

def step (s : State ι α) : ι × Act ι α → State ι α
  | (t, .call call) =>
      match s.threads t with
      | .idle => s.start t call
      | _ => s
  | (t, .go woken) => s.go t woken
  | (t, .spurious) =>
      match s.threads t with
      | .asleep call => s.goto t (.awake call)
      | _ => s

def run (s : State ι α) (as : List (ι × Act ι α)) : State ι α := as.foldl step s

end State

end CUtils.BlockQueues
