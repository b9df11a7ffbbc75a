import CUtils.Lib.Threads
import CUtils.Lib.StateRun

/-!
# Read-write locks

`RWLock` as its threads see it: each access to `lockCount_`, `writeWaitCount_` and `writeThreadID_`
is one step, and `compare_exchange_weak` may fail for no reason. With a thread go the locks it
has taken and not given back: `LockWrite` calls, and `LockRead` calls that were counted (`outer`) or
returned at once because the thread had the write lock (`inner`). A thread gives back only what it
has taken.
-/

namespace CUtils.RWLocks

open Finset Threads StateRun

/-- The next step of a thread; `count` is the local variable of that name. -/
inductive Pc
  | idle
  -- `LockRead`
  | readCheck
  | readLoad
  | readWaiting (count : Int)
  | readExchange (count : Int)
  -- `UnLockRead`
  | unreadCheck
  | unreadSub
  -- `LockWrite`
  | writeCheck
  | writeAdd
  | writeExchange
  | writeSub
  | writeId
  -- `UnLockWrite`
  | unwriteCheck
  | unwriteLoad
  | unwriteId
  | unwriteStore
deriving DecidableEq

structure Local where
  pc : Pc := .idle
  writes : Nat := 0
  outer : Nat := 0
  inner : Nat := 0

/-- A read lock is given back: one that was counted, if there is one. -/
def Local.unread (l : Local) : Local :=
  if 0 < l.outer then { l with pc := .idle, outer := l.outer - 1 }
  else { l with pc := .idle, inner := l.inner - 1 }

/-- A read lock is given back inside a write lock. -/
def Local.unreadInner (l : Local) : Local :=
  if 0 < l.inner then { l with pc := .idle, inner := l.inner - 1 }
  else { l with pc := .idle, outer := l.outer - 1 }

/-- `LOCK_STATUS_WRITE`. -/
def lockStatusWrite : Int := -1

/-- `LOCK_STATUS_FREE`. -/
def lockStatusFree : Int := 0

structure State (ι : Type) where
  writeFirst : Bool
  writeThreadID : Option ι
  lockCount : Int
  /-- An `unsigned int`. -/
  writeWaitCount : BitVec 32
  threads : ι → Local

inductive Act
  | lockRead
  | unLockRead
  | lockWrite
  | unLockWrite
  /-- The next step; `spurious` lets a compare-exchange fail. -/
  | go (spurious : Bool)

namespace State

variable {ι : Type} [DecidableEq ι]

def new (writeFirst : Bool) : State ι where
  writeFirst := writeFirst
  writeThreadID := none
  lockCount := 0
  writeWaitCount := 0
  threads _ := {}

def setThread (s : State ι) (t : ι) (l : Local) : State ι :=
  { s with threads := Function.update s.threads t l }

def goto (s : State ι) (t : ι) (pc : Pc) : State ι := s.setThread t { s.threads t with pc }

def go (s : State ι) (t : ι) (spurious : Bool) : State ι :=
  match (s.threads t).pc with
  | .idle => s
  | .readCheck =>
      if s.writeThreadID = some t then
        s.setThread t { s.threads t with pc := .idle, inner := (s.threads t).inner + 1 }
      else s.goto t .readLoad
  | .readLoad =>
      if s.lockCount = lockStatusWrite then s
      else s.goto t (if s.writeFirst then .readWaiting s.lockCount else .readExchange s.lockCount)
  | .readWaiting count =>
      s.goto t (if s.writeWaitCount.toNat > 0 then .readLoad else .readExchange count)
  | .readExchange count =>
      if s.lockCount = count ∧ spurious = false then
        { s with lockCount := int (count + 1) }.setThread t
          { s.threads t with pc := .idle, outer := (s.threads t).outer + 1 }
      else s.goto t .readLoad
  | .unreadCheck =>
      if s.writeThreadID ≠ some t then s.goto t .unreadSub
      else s.setThread t (Local.unreadInner (s.threads t))
  | .unreadSub =>
      { s with lockCount := int (s.lockCount - 1) }.setThread t (Local.unread (s.threads t))
  | .writeCheck =>
      if s.writeThreadID ≠ some t then s.goto t .writeAdd
      else s.setThread t { s.threads t with pc := .idle, writes := (s.threads t).writes + 1 }
  | .writeAdd => { s with writeWaitCount := s.writeWaitCount + 1 }.goto t .writeExchange
  | .writeExchange =>
      if s.lockCount = lockStatusFree ∧ spurious = false then
        { s with lockCount := lockStatusWrite }.goto t .writeSub
      else s
  | .writeSub => { s with writeWaitCount := s.writeWaitCount - 1 }.goto t .writeId
  | .writeId =>
      { s with writeThreadID := some t }.setThread t
        { s.threads t with pc := .idle, writes := (s.threads t).writes + 1 }
  | .unwriteCheck => s.goto t (if s.writeThreadID ≠ some t then .idle else .unwriteLoad)
  | .unwriteLoad => s.goto t (if s.lockCount ≠ lockStatusWrite then .idle else .unwriteId)
  | .unwriteId => { s with writeThreadID := none }.goto t .unwriteStore
  | .unwriteStore => { s with lockCount := lockStatusFree }.goto t .idle

/-- What an idle thread begins. -/
def start (s : State ι) (t : ι) : Act → State ι
  | .lockRead => s.goto t .readCheck
  | .unLockRead => if 0 < (s.threads t).outer + (s.threads t).inner then s.goto t .unreadCheck else s
  | .lockWrite => s.goto t .writeCheck
  | .unLockWrite =>
      if 0 < (s.threads t).writes then
        s.setThread t { s.threads t with pc := .unwriteCheck, writes := (s.threads t).writes - 1 }
      else s
  | .go _ => s

def step (s : State ι) : ι × Act → State ι
  | (t, .go spurious) => s.go t spurious
  | (t, a) => if (s.threads t).pc = .idle then s.start t a else s

def run (s : State ι) (as : List (ι × Act)) : State ι := as.foldl step s

end State

end CUtils.RWLocks
