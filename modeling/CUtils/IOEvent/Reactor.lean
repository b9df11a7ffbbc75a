import CUtils.Lib.LinkedList
import Mathlib.Data.Fintype.Card
import Mathlib.Data.Finset.Basic
import Mathlib.Algebra.GroupWithZero.Nat

/-!
# The IO event reactor

`IOEventReactor` keeps, for every descriptor, an intrusive list of handlers and the union of their
event masks, and passes that union on to epoll. The handlers of a run are the elements of a finite
type `ι`; their `prev_` and `next_`, and those of the list heads, are the `links`.

What the calls of `epoll_ctl` still to come will answer is part of the state (`answers`), so a
pattern of failing calls is some initial state. The kernel refuses an `ADD` of a registered
descriptor and a `MOD` or `DEL` of an unregistered one in any case; `calls` records what was
asked.
-/

namespace CUtils.IOEvent

open LinkedList

abbrev EventId := BitVec 32

namespace Events

def none : EventId := 0
def read : EventId := 1
def write : EventId := 2
def close : EventId := 4
def error : EventId := 8

end Events

/-- `MAX_FD`. -/
def maxFd : Int := 40000

/-- `INIT_FD_NUMS`. -/
def initFdNums : Nat := 8

inductive Node (ι : Type)
  /-- `ioHandlers_[fd].head`. -/
  | head (fd : Nat)
  | handler (i : ι)
  deriving DecidableEq

/-- A handler without its links. -/
structure Handler where
  fd : Int
  events : EventId
  enabled : Bool := false

inductive CtlOp
  | add | mod | del
  deriving DecidableEq

/-- A call of `epoll_ctl`, with whether the descriptor was registered when it was made. -/
structure CtlCall where
  op : CtlOp
  fd : Nat
  registered : Bool
  deriving DecidableEq

/-- `ADD` is for descriptors that are not registered, `MOD` and `DEL` for those that are. -/
def CtlCall.valid (c : CtlCall) : Bool :=
  match c.op with
  | .add => !c.registered
  | .mod | .del => c.registered

inductive ErrCode
  | ok | notFound | badf | alreadyStarted | failed
  deriving DecidableEq

structure Reactor (ι : Type) where
  links : Links (Node ι)
  handlers : ι → Handler
  count : BitVec 32
  /-- `ioHandlers_.size()`. -/
  size : Nat
  /-- `ioHandlers_[fd].events`. -/
  events : Nat → EventId
  interestFds : Finset Nat
  /-- What epoll holds for a descriptor. -/
  kernel : Nat → Option (BitVec 32)
  answers : Nat → Bool
  calls : List CtlCall

variable {ι : Type} [DecidableEq ι]

namespace Reactor

def new (handlers : ι → Handler) (answers : Nat → Bool) : Reactor ι where
  links := ⟨fun _ => none, fun _ => none⟩
  handlers := handlers
  count := 0
  size := initFdNums
  events := fun _ => Events.none
  interestFds := ∅
  kernel := fun _ => none
  answers := answers
  calls := []

/-! ## epoll -/

def reactor2Epoll (reactorEvent : EventId) : BitVec 32 :=
  let res : BitVec 32 := 0
  -- EPOLLIN | EPOLLPRI
  let res := if reactorEvent &&& Events.read ≠ 0 then res ||| 3 else res
  -- EPOLLOUT
  let res := if reactorEvent &&& Events.write ≠ 0 then res ||| 4 else res
  -- EPOLLERR
  if reactorEvent &&& Events.error ≠ 0 then res ||| 8 else res

/-- `epoll_ctl(epollFd_, op, fd, &event)`, `true` for success. -/
def epollCtl (r : Reactor ι) (op : CtlOp) (fd : Nat) (event : BitVec 32) : Bool × Reactor ι :=
  let call : CtlCall := ⟨op, fd, (r.kernel fd).isSome⟩
  let r' := { r with answers := fun n => r.answers (n + 1), calls := call :: r.calls }
  if r.answers 0 && call.valid then
    (true, { r' with
      kernel := Function.update r.kernel fd (match op with | .add | .mod => some event | .del => none) })
  else (false, r')

def operateEpoll (r : Reactor ι) (op : CtlOp) (fd : Nat) (epollEvents : BitVec 32) :
    Bool × Reactor ι :=
  let (ok, r) := r.epollCtl op fd epollEvents
  if !ok then (false, r)
  else
    match op with
    | .add => (true, { r with interestFds := insert fd r.interestFds })
    | .del => (true, { r with interestFds := r.interestFds.erase fd })
    | .mod => (true, r)

/-- The operation `ModifyEvents` chooses. -/
def ctlOp (r : Reactor ι) (fd : Nat) (events : EventId) : CtlOp :=
  if fd ∈ r.interestFds then if events = Events.none then .del else .mod else .add

def modifyEvents (r : Reactor ι) (fd : Nat) (events : EventId) : Bool × Reactor ι :=
  r.operateEpoll (r.ctlOp fd events) fd (reactor2Epoll events)

/-! ## Lists -/

section Walk

variable [Fintype ι]

/-- The nodes of the list of `fd`, without its head. A list without cycles has at most as many
nodes as there are handlers. -/
def nodes (r : Reactor ι) (fd : Nat) : List (Node ι) := r.links.walk (Fintype.card ι) (.head fd)

/-- `events_` of a node; that of a head is `EVENT_NONE`. -/
def nodeEvents (r : Reactor ι) : Node ι → EventId
  | .head _ => Events.none
  | .handler i => (r.handlers i).events

/-- The loop over the list of `fd` that collects the masks. -/
def emask (r : Reactor ι) (fd : Nat) : EventId :=
  (Node.head fd :: r.nodes fd).foldl (fun m n => m ||| r.nodeEvents n) 0

def updateToDemultiplexer (r : Reactor ι) (fd : Nat) : Bool × Reactor ι :=
  if r.emask fd = r.events fd then (true, r)
  else
    let (ok, r') := r.modifyEvents fd (r.emask fd)
    if !ok then (false, r')
    else (true, { r' with events := Function.update r'.events fd (r.emask fd) })

/-- `fd_` is negative or above `MAX_FD`. -/
def badFd (r : Reactor ι) (i : ι) : Bool := (r.handlers i).fd < 0 || (r.handlers i).fd > maxFd

/-- `fd_` as an index, once it has been found not to be negative. -/
def fdOf (r : Reactor ι) (i : ι) : Nat := (r.handlers i).fd.toNat

def hasHandler (r : Reactor ι) (i : ι) : Bool :=
  if (r.handlers i).fd < 0 || r.fdOf i ≥ r.size then false
  else decide (Node.handler i ∈ Node.head (r.fdOf i) :: r.nodes (r.fdOf i))

def setEnabled (r : Reactor ι) (i : ι) (b : Bool) : Reactor ι :=
  { r with handlers := Function.update r.handlers i { r.handlers i with enabled := b } }

/-- Make room for `fd` and put the handler at the front of its list. -/
def insertNodeFront (r : Reactor ι) (fd : Nat) (i : ι) : Reactor ι :=
  { r with
    size := if fd > r.size - 1 then fd * 2 else r.size
    links := r.links.insertFront (.head fd) (.handler i) }

def addHandler (r : Reactor ι) (target : Option ι) : ErrCode × Reactor ι :=
  match target with
  | none => (.notFound, r)
  | some i =>
      if r.badFd i then (.badf, r)
      else if (r.links.prev (.handler i)).isSome then (.alreadyStarted, r)
      else
        let fd := r.fdOf i
        let r := r.insertNodeFront fd i
        let (ok, r) :=
          if r.events fd &&& (r.handlers i).events ≠ (r.handlers i).events then
            r.updateToDemultiplexer fd
          else (true, r)
        if !ok then (.failed, r)
        else
          let r := r.setEnabled i true
          (.ok, { r with count := r.count + 1 })

def updateHandler (r : Reactor ι) (target : Option ι) : ErrCode × Reactor ι :=
  match target with
  | none => (.notFound, r)
  | some i =>
      if r.badFd i then (.badf, r)
      else if (r.links.prev (.handler i)).isSome then
        if !r.hasHandler i then (.notFound, r)
        else
          let (ok, r) := r.updateToDemultiplexer (r.fdOf i)
          (if ok then .ok else .failed, r)
      else r.addHandler target

def removeHandler (r : Reactor ι) (target : Option ι) : ErrCode × Reactor ι :=
  match target with
  | none => (.notFound, r)
  | some i =>
      if r.badFd i then (.badf, r)
      else
        let r := r.setEnabled i false
        if !r.hasHandler i then (.notFound, r.setEnabled i true)
        else
          let r := { r with links := r.links.unlink (.handler i) }
          let (ok, r) := r.updateToDemultiplexer (r.fdOf i)
          if !ok then (.failed, r.setEnabled i true)
          else (.ok, { r with count := r.count - 1 })

/-! ## Cleaning -/

/-- The handlers of the list of `fd` are disabled. -/
def disableAll (r : Reactor ι) (fd : Nat) : Reactor ι :=
  { r with handlers := fun i =>
      if Node.handler i ∈ r.nodes fd then { r.handlers i with enabled := false } else r.handlers i }

def doClean (r : Reactor ι) (fd : Nat) : Bool × Reactor ι :=
  if r.links.next (.head fd) = none then (true, r)
  else
    let q := r.disableAll fd
    let q := { q with links := r.links.dissolve (Fintype.card ι) (r.links.next (.head fd)) }
    q.updateToDemultiplexer fd

def cleanLoop (r : Reactor ι) : List Nat → ErrCode → ErrCode × Reactor ι
  | [], res => (res, r)
  | fd :: fds, res =>
      let (ok, r) := r.doClean fd
      r.cleanLoop fds (if ok then res else .failed)

def cleanUp (r : Reactor ι) : ErrCode × Reactor ι := r.cleanLoop (List.range r.size) .ok

/-- `Clean(fd)` for a descriptor the table has an entry for. -/
def clean (r : Reactor ι) (fd : Nat) : ErrCode × Reactor ι :=
  let (ok, r) := r.doClean fd
  (if ok then .ok else .failed, r)

end Walk

/-! ## Handlers -/

/-- `~IOEventHandler`. -/
def destroy (r : Reactor ι) (i : ι) : Reactor ι := { r with links := r.links.unlink (.handler i) }

def setFd (r : Reactor ι) (i : ι) (fd : Int) : Reactor ι :=
  { r with handlers := Function.update r.handlers i { r.handlers i with fd := fd } }

/-- `SetEvents`; `EnableRead`, `EnableWrite`, `DisableWrite` and `DisableAll` set a mask, too. -/
def setEvents (r : Reactor ι) (i : ι) (events : EventId) : Reactor ι :=
  { r with handlers := Function.update r.handlers i { r.handlers i with events := events } }

end Reactor

/-! ## Runs -/

inductive Op (ι : Type)
  | addHandler (target : Option ι)
  | updateHandler (target : Option ι)
  | removeHandler (target : Option ι)
  | clean (fd : Nat)
  | cleanUp
  | destroy (i : ι)
  | setFd (i : ι) (fd : Int)
  | setEvents (i : ι) (events : EventId)
  /-- A change of the mask that `UpdateHandler` follows at once. -/
  | change (i : ι) (events : EventId)

variable [Fintype ι]

def Reactor.step (r : Reactor ι) : Op ι → Reactor ι
  | .addHandler target => (r.addHandler target).2
  | .updateHandler target => (r.updateHandler target).2
  | .removeHandler target => (r.removeHandler target).2
  | .clean fd => if fd < r.size then (r.clean fd).2 else r
  | .cleanUp => r.cleanUp.2
  | .destroy i => r.destroy i
  | .setFd i fd => r.setFd i fd
  | .setEvents i events => r.setEvents i events
  | .change i events => ((r.setEvents i events).updateHandler (some i)).2

def Reactor.run (r : Reactor ι) (ops : List (Op ι)) : Reactor ι := ops.foldl Reactor.step r

/-- Whether a round of `Run(timeout)` gets as far as `Polling`. -/
def Reactor.polls (r : Reactor ι) (timeout : Int) : Bool :=
  if timeout = -1 then r.count ≠ 0 else true

/-- How many handlers are linked in the lists of `ioHandlers_`. -/
def Reactor.linked (r : Reactor ι) : Nat :=
  ((List.range r.size).map fun fd => (r.nodes fd).length).sum

end CUtils.IOEvent
