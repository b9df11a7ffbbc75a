import Mathlib.Data.Finset.Basic
import Mathlib.Data.BitVec
import Mathlib.Logic.Function.Basic

/-!
# The timer tables

A `Timer` keeps its entries twice, by interval and by id, and for each descriptor the interval it
was made for. `Register` and `Unregister` hold the mutex for their whole length. `OnTimer` holds it
while it copies a list and again while `EraseUnusedTimerId` removes the one-shot entries that have
fired; in between the callbacks run, and calls from them and from other threads go through. So
`OnTimer` is three kinds of steps here (`onTimer`, `onTimerNext`, `onTimerEnd`) with a `Firing`
between them, and what the callbacks do is other steps of the same run.

A lookup with `[]` inserts a default, and so do the lookups below.
-/

namespace CUtils.Timers

abbrev Id := BitVec 32

/-- `TIMER_ERR_DEAL_FAILED`, which is `ErrCodeOffset(SUBSYS_COMMON, MODULE_TIMER) + EAGAIN`. -/
def dealFailed : Id := (0#32 <<< 21 ||| 1#32 <<< 16) + 11

def uint32Max : Id := BitVec.allOnes 32

/-- A `TimerEntry` without its callback. -/
structure Entry where
  timerId : Id
  interval : BitVec 32
  once : Bool
  timerFd : Nat
  deriving DecidableEq

/-- `OnTimer` between its two holds of the mutex. -/
structure Firing where
  timerFd : Nat
  interval : BitVec 32
  /-- The entries of the copied list that are still to come. -/
  entryList : List Entry
  onceIdsUnused : List Id

structure Timer where
  intervalToTimers : BitVec 32 → Option (List Entry)
  timerToEntries : Id → Option Entry
  timers : Nat → Option (BitVec 32)
  /-- The static of `Register`. -/
  timerId : Id
  /-- The descriptors of the handlers that the reactor holds. -/
  handlers : Finset Nat
  firing : Option Firing

namespace Timer

def new : Timer where
  intervalToTimers := fun _ => none
  timerToEntries := fun _ => none
  timers := fun _ => none
  timerId := 1
  handlers := ∅
  firing := none

/-- `intervalToTimers_[interval]`, as far as its value goes. -/
def list (t : Timer) (interval : BitVec 32) : List Entry := (t.intervalToTimers interval).getD []

def setList (t : Timer) (interval : BitVec 32) (l : List Entry) : Timer :=
  { t with intervalToTimers := Function.update t.intervalToTimers interval (some l) }

/-! ## Descriptors -/

/-- `CancelTimer`: the handler goes, and with it the descriptor. -/
def cancelTimer (t : Timer) (timerFd : Nat) : Timer := { t with handlers := t.handlers.erase timerFd }

/-- `DoUnregister`: every descriptor that is in `timers_` with this interval is cancelled, and
stays in `timers_`. -/
def doUnregister (t : Timer) (interval : BitVec 32) : Timer :=
  { t with handlers := t.handlers.filter fun timerFd => t.timers timerFd ≠ some interval }

def getTimerFd (t : Timer) (interval : BitVec 32) : Option Nat :=
  match t.intervalToTimers interval with
  | none => none
  | some entryList => (entryList.find? fun e => !e.once).map (·.timerFd)

/-- `DoRegister`. The descriptor is the one `timerfd_create` returns, if the handler can be set up
with it. -/
def doRegister (t : Timer) (interval : BitVec 32) : Option Nat → Option (Nat × Timer)
  | none => none
  | some timerFd => some (timerFd, { t with
      handlers := insert timerFd t.handlers
      timers := Function.update t.timers timerFd (some interval) })

/-! ## Ids -/

def getValidId (timerId : Id) : Id :=
  if timerId = dealFailed then timerId + 1
  else if timerId = uint32Max then 1
  else timerId

/-- The search of `Register` for an id that is not in use. There are no more than `2 ^ 32` to be
looked at; if none of them is free, the loop does not end. -/
def searchId (t : Timer) : Nat → Id → Option Id
  | 0, _ => none
  | n + 1, timerId =>
      if (t.timerToEntries timerId).isSome then t.searchId n (getValidId (timerId + 1))
      else some timerId

/-- The id that `Register` would hand out. -/
def nextId (t : Timer) : Option Id := t.searchId (2 ^ 32) (getValidId t.timerId)

/-! ## The operations -/

def addEntry (t : Timer) (entry : Entry) : Timer :=
  { t.setList entry.interval (t.list entry.interval ++ [entry]) with
    timerId := entry.timerId + 1
    timerToEntries := Function.update t.timerToEntries entry.timerId (some entry) }

/-- `Register`, with its result; there is none if the search for an id does not end. -/
def register (t : Timer) (interval : BitVec 32) (once : Bool) (create : Option Nat) :
    Option Id × Timer :=
  let placed :=
    match if once then none else t.getTimerFd interval with
    | some timerFd => some (timerFd, t)
    | none => t.doRegister interval create
  match placed with
  | none => (some dealFailed, t)
  | some (timerFd, t) =>
      match t.nextId with
      | none => (none, t)
      | some timerId => (some timerId, t.addEntry ⟨timerId, interval, once, timerFd⟩)

/-- The handler and the descriptor of a one-shot entry go with it. -/
def dropFd (t : Timer) (timerFd : Nat) : Timer :=
  { t.cancelTimer timerFd with timers := Function.update t.timers timerFd none }

/-- An empty list goes, and with it the descriptors of its interval. -/
def dropIfEmpty (t : Timer) (interval : BitVec 32) : Timer :=
  if t.list interval = [] then
    { t with intervalToTimers := Function.update t.intervalToTimers interval none }.doUnregister
      interval
  else t

def eraseId (t : Timer) (timerId : Id) : Timer :=
  { t with timerToEntries := Function.update t.timerToEntries timerId none }

def unregister (t : Timer) (timerId : Id) : Timer :=
  match t.timerToEntries timerId with
  | none => t
  | some entry =>
      let t :=
        match (t.list entry.interval).find? fun e => e.timerId = timerId with
        | none => t
        | some e =>
            (if e.once then t.dropFd e.timerFd else t).setList entry.interval
              ((t.list entry.interval).eraseP fun e => e.timerId = timerId)
      (t.dropIfEmpty entry.interval).eraseId timerId

/-- The loop of `EraseUnusedTimerId`; `kept` is what it has gone past. -/
def eraseLoop (interval : BitVec 32) (unusedIds : List Id) :
    Timer → List Entry → List Entry → Timer
  | t, _, [] => t
  | t, kept, e :: rest =>
      if e.timerId ∉ unusedIds then eraseLoop interval unusedIds t (kept ++ [e]) rest
      else
        let t := ((t.dropFd e.timerFd).setList interval (kept ++ rest)).eraseId e.timerId
        if kept ++ rest = [] then t.dropIfEmpty interval
        else eraseLoop interval unusedIds t kept rest

def eraseUnusedTimerId (t : Timer) (interval : BitVec 32) (unusedIds : List Id) : Timer :=
  eraseLoop interval unusedIds (t.setList interval (t.list interval)) [] (t.list interval)

/-- `OnTimer` up to the copy of the list. There is one thread that fires. -/
def onTimer (t : Timer) (timerFd : Nat) : Timer :=
  match t.firing with
  | some _ => t
  | none =>
      let interval := (t.timers timerFd).getD 0
      { t.setList interval (t.list interval) with
        timers := Function.update t.timers timerFd (some interval)
        firing := some ⟨timerFd, interval, t.list interval, []⟩ }

/-- The loop of `OnTimer` is done with an entry. -/
def onTimerNext (t : Timer) : Timer :=
  match t.firing with
  | some ⟨timerFd, interval, ptr :: rest, onceIdsUnused⟩ =>
      { t with firing := some ⟨timerFd, interval, rest,
          if ptr.timerFd = timerFd ∧ ptr.once = true then onceIdsUnused ++ [ptr.timerId]
          else onceIdsUnused⟩ }
  | _ => t

/-- The loop of `OnTimer` has come to its end. -/
def onTimerEnd (t : Timer) : Timer :=
  match t.firing with
  | some ⟨_, interval, [], onceIdsUnused⟩ =>
      let t := { t with firing := none }
      if onceIdsUnused = [] then t else t.eraseUnusedTimerId interval onceIdsUnused
  | _ => t

end Timer

/-! ## Runs -/

inductive Op
  /-- `create` is what `timerfd_create` will return, if it is called. -/
  | register (interval : BitVec 32) (once : Bool) (create : Option Nat)
  | unregister (timerId : Id)
  | onTimer (timerFd : Nat)
  | onTimerNext
  | onTimerEnd

def Timer.step (t : Timer) : Op → Timer
  | .register interval once create => (t.register interval once create).2
  | .unregister timerId => t.unregister timerId
  | .onTimer timerFd => t.onTimer timerFd
  | .onTimerNext => t.onTimerNext
  | .onTimerEnd => t.onTimerEnd

def Timer.run (t : Timer) (ops : List Op) : Timer := ops.foldl Timer.step t

end CUtils.Timers
