import CUtils.Timer.Table

/-!
# The demultiplexer

A handler tells the demultiplexer whenever its event mask is set, and the demultiplexer works out
from its map what to ask of the kernel: a descriptor that is not in the map is added, one that is
there is deleted if the mask is empty and modified if not.

Handlers are known by their addresses. One lives as long as somebody has a `shared_ptr` to it: a
caller, `timerEventHandlers_` or `eventHandlers_`. A timer's handler takes its descriptor with it.
-/

namespace CUtils.Reactors

abbrev Addr := Nat

/-- `NONE_EVENT` -/
def noneEvent : BitVec 32 := 0x0000

/-- `READ_EVENT` -/
def readEvent : BitVec 32 := 0x0001

structure EventHandler where
  fd : Nat
  events : BitVec 32

structure Reactor where
  /-- The handlers that live. -/
  handlers : Addr → Option EventHandler
  /-- Those that callers have a `shared_ptr` to. -/
  held : Finset Addr
  timerEventHandlers : List Addr
  eventHandlers : Nat → Option Addr
  /-- What the `epoll` instance has, with the mask it was asked for. -/
  registered : Nat → Option (BitVec 32)

namespace Reactor

def new : Reactor where
  handlers _ := none
  held := ∅
  timerEventHandlers := []
  eventHandlers _ := none
  registered _ := none

/-! ## `epoll_ctl` -/

/-- `EPOLLIN | EPOLLPRI` for `READ_EVENT`. -/
def reactor2Epoll (events : BitVec 32) : BitVec 32 :=
  if events = noneEvent then 0
  else if events = readEvent then 0x001 ||| 0x002
  else Timers.dealFailed

def ctlAdd (r : Reactor) (h : EventHandler) : Reactor :=
  match r.registered h.fd with
  | none => { r with registered := Function.update r.registered h.fd (some (reactor2Epoll h.events)) }
  | some _ => r

def ctlMod (r : Reactor) (h : EventHandler) : Reactor :=
  match r.registered h.fd with
  | none => r
  | some _ => { r with registered := Function.update r.registered h.fd (some (reactor2Epoll h.events)) }

def ctlDel (r : Reactor) (h : EventHandler) : Reactor :=
  { r with registered := Function.update r.registered h.fd none }

/-! ## Handlers -/

def updateEventHandler (r : Reactor) (a : Addr) (h : EventHandler) : Reactor :=
  match r.eventHandlers h.fd with
  | none => { r with eventHandlers := Function.update r.eventHandlers h.fd (some a) }.ctlAdd h
  | some b =>
      if h.events = noneEvent then
        { r with eventHandlers := Function.update r.eventHandlers h.fd none }.ctlDel h
      else if a ≠ b then r
      else r.ctlMod h

/-- A handler sets its mask and tells the demultiplexer. -/
def setEvents (r : Reactor) (a : Addr) (h : EventHandler) (events : BitVec 32) : Reactor :=
  { r with handlers := Function.update r.handlers a (some { h with events }) }.updateEventHandler a
    { h with events }

def enableRead (r : Reactor) (a : Addr) : Reactor :=
  match r.handlers a with
  | none => r
  | some h => r.setEvents a h (h.events ||| readEvent)

def disableAll (r : Reactor) (a : Addr) : Reactor :=
  match r.handlers a with
  | none => r
  | some h => r.setEvents a h noneEvent

/-- Whether anybody has a `shared_ptr` to the handler. -/
def referenced (r : Reactor) (a : Addr) (h : EventHandler) : Prop :=
  a ∈ r.held ∨ a ∈ r.timerEventHandlers ∨ r.eventHandlers h.fd = some a

instance (r : Reactor) (a : Addr) (h : EventHandler) : Decidable (r.referenced a h) :=
  inferInstanceAs (Decidable (_ ∨ _ ∨ _))

/-- A `shared_ptr` to the handler has gone, and with the last one the handler goes.
`~TimerEventHandler` closes the descriptor, and the kernel forgets it. `~EventHandler` is empty and
leaves the descriptor to its owner; the kernel has nothing to forget then, because what it has is in
the map as well. -/
def collect (r : Reactor) (a : Addr) : Reactor :=
  match r.handlers a with
  | none => r
  | some h =>
      if r.referenced a h then r
      else { r with
        handlers := Function.update r.handlers a none
        registered := Function.update r.registered h.fd none }

/-- A handler is made, and the caller has the `shared_ptr`. -/
def make (r : Reactor) (a : Addr) (fd : Nat) : Reactor :=
  { r with
    handlers := Function.update r.handlers a (some ⟨fd, noneEvent⟩)
    held := insert a r.held }

/-- A caller drops its `shared_ptr`. -/
def release (r : Reactor) (a : Addr) : Reactor := { r with held := r.held.erase a }.collect a

/-! ## Timers -/

/-- `ScheduleTimer`, once the timer has been set; if it cannot be set, nothing is left behind. -/
def scheduleTimer (r : Reactor) (a : Addr) (fd : Nat) : Reactor :=
  let r := (r.make a fd).enableRead a
  { r with timerEventHandlers := r.timerEventHandlers ++ [a] }.release a

/-- The handler that `CancelTimer` finds. -/
def timerHandler (r : Reactor) (timerFd : Nat) : Option Addr :=
  r.timerEventHandlers.find? fun a => (r.handlers a).map (·.fd) = some timerFd

def cancelTimer (r : Reactor) (timerFd : Nat) : Reactor :=
  match r.timerHandler timerFd with
  | none => r
  | some a =>
      let r := r.disableAll a
      { r with timerEventHandlers := r.timerEventHandlers.erase a }.collect a

def cleanUp (r : Reactor) : Reactor := r.timerEventHandlers.foldl disableAll r

end Reactor

/-! ## Runs -/

inductive Op
  | make (a : Addr) (fd : Nat)
  | release (a : Addr)
  | enableRead (a : Addr)
  | disableAll (a : Addr)
  | scheduleTimer (a : Addr) (fd : Nat)
  | cancelTimer (timerFd : Nat)
  | cleanUp

def Reactor.step (r : Reactor) : Op → Reactor
  | .make a fd => r.make a fd
  | .release a => r.release a
  | .enableRead a => r.enableRead a
  | .disableAll a => r.disableAll a
  | .scheduleTimer a fd => r.scheduleTimer a fd
  | .cancelTimer timerFd => r.cancelTimer timerFd
  | .cleanUp => r.cleanUp

def Reactor.run (r : Reactor) (ops : List Op) : Reactor := ops.foldl Reactor.step r

/-- A new handler has an address and an open descriptor of its own; a caller has a `shared_ptr` to
the handler it calls. -/
def Op.Possible (r : Reactor) : Op → Prop
  | .make a fd | .scheduleTimer a fd =>
      r.handlers a = none ∧ ∀ b h, r.handlers b = some h → h.fd ≠ fd
  | .release a | .enableRead a | .disableAll a => a ∈ r.held
  | .cancelTimer _ | .cleanUp => True

end CUtils.Reactors
