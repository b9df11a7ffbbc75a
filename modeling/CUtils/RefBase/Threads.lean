import Mathlib.Algebra.BigOperators.Group.Finset.Basic
import CUtils.RefBase.Model

/-!
# Reference counting under threads

The object of `RefBase.Model` in the hands of several threads. A step of a thread is one atomic
load, addition, subtraction or compare-exchange, or one look at `callback_`; steps of the threads
follow each other in any order. Each thread has its own `sptr`s and `wptr`s, and it may hand one of
them over to another thread. The creating thread may also use the raw pointer, as long as it has not
handed anything over and the object has not been destroyed.

An assignment is a copy followed by a release, so it has no steps of its own; a move has no atomic
steps. `DecWeakRefCount`, `callback_()` and `DecRefCount` are called from several places: their steps
carry where they return to.
-/

namespace CUtils.RefBases.Threads

/-! ## Where a thread is -/

/-- What follows a call of `RefCounter::DecWeakRefCount`. -/
inductive WeakReturn
  /-- `DecStrongRef` is at its end. -/
  | decStrongRef
  /-- `AttemptIncStrongRef` returns `false`. -/
  | attempt
  /-- The `WeakRefCounter` is deleted. -/
  | wrc
deriving DecidableEq

/-- What follows a call of `callback_()`. -/
inductive CallbackReturn
  | decStrongRef
  | decWeakRefCount (k : WeakReturn)
deriving DecidableEq

/-- What follows a call of `DecRefCount`. -/
inductive RefReturn
  | destructor (k : CallbackReturn)
  | decWeakRefCount (k : WeakReturn)
  /-- `~WeakRefCounter` is at its end. -/
  | wrc
deriving DecidableEq

/-- The next step of a thread. `w` is the `WeakRefCounter` of the `wptr` it works with, `curCount`
the local variable of that name. -/
inductive Pc
  | idle
  -- `RefBase::IncStrongRef`
  | incWeak
  | incLoad
  | incAdd
  | incSub
  | incFlags
  -- `RefBase::DecStrongRef`
  | decLoad
  | decSub
  | decFlags
  | decCallback
  -- `~RefBase`
  | removeCallback (k : CallbackReturn)
  | destructorFlags (k : CallbackReturn)
  | destructorWeak (k : CallbackReturn)
  | destructorStrong (k : CallbackReturn)
  -- `RefCounter::DecWeakRefCount`
  | weakLoad (k : WeakReturn)
  | weakSub (k : WeakReturn)
  | weakFlags (k : WeakReturn)
  | weakStrong (k : WeakReturn)
  | weakCallback (k : WeakReturn)
  -- `RefCounter::DecRefCount`
  | refLoad (r : RefReturn)
  | refSub (r : RefReturn)
  -- `RefCounter::AttemptIncStrongRef`, then `GetRefPtr`
  | attemptLoad (w : Nat)
  | attemptWeak (w : Nat) (curCount : Int)
  | attemptExchange (w : Nat) (curCount : Int)
  | attemptReload (w : Nat)
  | attemptNormal (w : Nat) (curCount : Int)
  | attemptFirstExchange (w : Nat) (curCount : Int)
  | attemptFirstReload (w : Nat)
  | attemptExtended (w : Nat) (curCount : Int)
  | attemptAdd (w : Nat)
  | attemptSub (w : Nat)
  | attemptEnd (w : Nat) (curCount : Int)
  | attemptPtr (w : Nat)
  -- `CreateWeakRef` and `IncWeakRefCount` of the new `WeakRefCounter`, which no other thread sees
  | newRef
  | newAdd (c : WeakRefCounter)
  | newWeak (c : WeakRefCounter)
  -- `WeakRefCounter::IncWeakRefCount`
  | copyAdd (w : Nat)
  | copyWeak (w : Nat)
  -- `WeakRefCounter::DecWeakRefCount`
  | dropSub (w : Nat)

def WeakReturn.pc : WeakReturn → Pc
  | .decStrongRef => .idle
  | .attempt => .idle
  | .wrc => .refLoad .wrc

def CallbackReturn.pc : CallbackReturn → Pc
  | .decStrongRef => .weakLoad .decStrongRef
  | .decWeakRefCount k => k.pc

def RefReturn.pc : RefReturn → Pc
  | .destructor k => k.pc
  | .decWeakRefCount k => k.pc
  | .wrc => .idle

/-- From `ATTEMPT_SUCCESS` on. -/
def Pc.attemptSuccess (w : Nat) (curCount : Int) : Pc :=
  if curCount = initialPrimaryValue then .attemptSub w
  else if curCount < 0 then .weakLoad .attempt
  else .attemptEnd w curCount

/-- The first loop of `AttemptIncStrongRef`, at its condition. -/
def Pc.attemptLoop (w : Nat) (curCount : Int) : Pc :=
  if curCount > 0 ∧ curCount ≠ initialPrimaryValue then .attemptExchange w curCount
  else if curCount = initialPrimaryValue then .attemptNormal w curCount
  else .attemptExtended w curCount

/-- The second loop, at its condition. -/
def Pc.attemptFirstLoop (w : Nat) (curCount : Int) : Pc :=
  if curCount > 0 then .attemptFirstExchange w curCount else .attemptExtended w curCount

structure Local where
  pc : Pc := .idle
  /-- How many `sptr`s the thread has. -/
  sptrs : Nat := 0
  /-- How many `wptr`s with this `WeakRefCounter`. -/
  wptrs : Nat → Nat := fun _ => 0

structure State (ι : Type) where
  refs : RefCounter
  /-- The `WeakRefCounter`s that `wptr`s have, and the number of the next one. -/
  wrcs : Finset Nat
  wrc : Nat → WeakRefCounter
  next : Nat
  threads : ι → Local
  creator : ι
  /-- The creating thread has handed a pointer over. -/
  shared : Bool
  /-- How often `callback_` has been called. -/
  invoked : Nat
  /-- How often the `RefCounter` has been deleted. -/
  freed : Nat

/-! ## Steps -/

section

variable {ι : Type} [DecidableEq ι]

namespace State

def setStrong (s : State ι) (n : Int) : State ι :=
  { s with refs := { s.refs with strong := int32 n } }

def setWeak (s : State ι) (n : Int) : State ι := { s with refs := { s.refs with weak := int32 n } }

def setRefCount (s : State ι) (n : Int) : State ι :=
  { s with refs := { s.refs with refCount := int32 n } }

def setThread (s : State ι) (t : ι) (l : Local) : State ι :=
  { s with threads := Function.update s.threads t l }

def goto (s : State ι) (t : ι) (pc : Pc) : State ι := s.setThread t { s.threads t with pc }

def addSptr (s : State ι) (t : ι) : State ι :=
  s.setThread t { s.threads t with pc := .idle, sptrs := (s.threads t).sptrs + 1 }

def addWptr (s : State ι) (t : ι) (w : Nat) : State ι :=
  s.setThread t { s.threads t with
    pc := .idle, wptrs := Function.update (s.threads t).wptrs w ((s.threads t).wptrs w + 1) }

/-- The new `WeakRefCounter` gets the number `next`. -/
def addWrc (s : State ι) (t : ι) (c : WeakRefCounter) : State ι :=
  { s with
    wrcs := insert s.next s.wrcs
    wrc := Function.update s.wrc s.next c
    next := s.next + 1 }.addWptr t s.next

/-- Going on with what the thread has begun. A compare-exchange can fail with `spurious`;
`canPromote` is what `canPromote_()` returns. -/
def go (s : State ι) (t : ι) (spurious canPromote : Bool) : State ι :=
  match (s.threads t).pc with
  | .idle => s
  | .incWeak => (s.setWeak (s.refs.weak + 1)).goto t .incLoad
  | .incLoad => s.goto t (if s.refs.strong ≥ 0 then .incAdd else .incFlags)
  | .incAdd =>
      (s.setStrong (s.refs.strong + 1)).goto t
        (if s.refs.strong = initialPrimaryValue then .incSub else .incFlags)
  | .incSub => (s.setStrong (s.refs.strong - initialPrimaryValue)).goto t .incFlags
  | .incFlags => s.addSptr t
  | .decLoad =>
      s.goto t
        (if s.refs.strong = initialPrimaryValue then .weakLoad .decStrongRef
         else if s.refs.strong > 0 then .decSub
         else .weakLoad .decStrongRef)
  | .decSub =>
      (s.setStrong (s.refs.strong - 1)).goto t
        (if s.refs.strong = 1 then .decFlags else .weakLoad .decStrongRef)
  | .decFlags => s.goto t (if s.refs.extended then .weakLoad .decStrongRef else .decCallback)
  | .decCallback =>
      if s.refs.callback then
        { s with invoked := s.invoked + 1 }.goto t (.removeCallback .decStrongRef)
      else s.goto t (.weakLoad .decStrongRef)
  | .removeCallback k =>
      { s with refs := { s.refs with callback := false } }.goto t (.destructorFlags k)
  | .destructorFlags k =>
      s.goto t (if s.refs.extended then .destructorWeak k else .destructorStrong k)
  | .destructorWeak k =>
      s.goto t (if s.refs.weak = 0 then .refLoad (.destructor k) else .destructorStrong k)
  | .destructorStrong k =>
      s.goto t (if s.refs.strong = initialPrimaryValue then .refLoad (.destructor k) else k.pc)
  | .weakLoad k => s.goto t (if s.refs.weak > 0 then .weakSub k else k.pc)
  | .weakSub k =>
      (s.setWeak (s.refs.weak - 1)).goto t (if s.refs.weak = 1 then .weakFlags k else k.pc)
  | .weakFlags k => s.goto t (if s.refs.extended then .weakCallback k else .weakStrong k)
  | .weakStrong k =>
      s.goto t
        (if s.refs.strong = initialPrimaryValue then .weakCallback k
         else .refLoad (.decWeakRefCount k))
  | .weakCallback k =>
      if s.refs.callback then
        { s with invoked := s.invoked + 1 }.goto t (.removeCallback (.decWeakRefCount k))
      else s.goto t k.pc
  | .refLoad r => s.goto t (if s.refs.refCount > 0 then .refSub r else r.pc)
  | .refSub r =>
      { s.setRefCount (s.refs.refCount - 1) with
        freed := if s.refs.refCount = 1 then s.freed + 1 else s.freed }.goto t r.pc
  | .attemptLoad w => s.goto t (.attemptWeak w s.refs.strong)
  | .attemptWeak w curCount =>
      (s.setWeak (s.refs.weak + 1)).goto t (.attemptLoop w curCount)
  | .attemptExchange w curCount =>
      if s.refs.strong = curCount ∧ !spurious then
        (s.setStrong (curCount + 1)).goto t (.attemptSuccess w curCount)
      else s.goto t (.attemptReload w)
  | .attemptReload w => s.goto t (.attemptLoop w s.refs.strong)
  | .attemptNormal w curCount =>
      s.goto t (if s.refs.extended then .attemptExtended w curCount else .attemptFirstLoop w curCount)
  | .attemptFirstExchange w curCount =>
      if s.refs.strong = curCount ∧ !spurious then
        (s.setStrong (curCount + 1)).goto t (.attemptSuccess w curCount)
      else s.goto t (.attemptFirstReload w)
  | .attemptFirstReload w => s.goto t (.attemptFirstLoop w s.refs.strong)
  | .attemptExtended w curCount =>
      s.goto t
        (if s.refs.extended then (if canPromote then .attemptAdd w else .idle)
         else .attemptSuccess w curCount)
  | .attemptAdd w =>
      (s.setStrong (s.refs.strong + 1)).goto t (.attemptSuccess w s.refs.strong)
  | .attemptSub w => (s.setStrong (s.refs.strong - initialPrimaryValue)).goto t (.attemptPtr w)
  | .attemptEnd w curCount =>
      s.goto t (if !s.refs.extended ∧ curCount = 0 then .weakLoad .attempt else .attemptPtr w)
  | .attemptPtr w =>
      let cookie := (s.wrc w).cookie && s.refs.callback
      let s := { s with wrc := Function.update s.wrc w { s.wrc w with cookie } }
      if cookie then s.addSptr t else s.goto t .idle
  | .newRef => (s.setRefCount (s.refs.refCount + 1)).goto t (.newAdd {})
  | .newAdd c =>
      let c' := { c with weak := int32 (c.weak + 1) }
      if c.weak = 0 then s.goto t (.newWeak c') else s.addWrc t c'
  | .newWeak c => (s.setWeak (s.refs.weak + 1)).addWrc t c
  | .copyAdd w =>
      let count := (s.wrc w).weak
      let s := { s with wrc := Function.update s.wrc w { s.wrc w with weak := int32 (count + 1) } }
      if count = 0 then s.goto t (.copyWeak w) else s.addWptr t w
  | .copyWeak w => { s.setWeak (s.refs.weak + 1) with wrcs := insert w s.wrcs }.addWptr t w
  | .dropSub w =>
      let count := (s.wrc w).weak
      let s := { s with wrc := Function.update s.wrc w { s.wrc w with weak := int32 (count - 1) } }
      if count = 1 then { s with wrcs := s.wrcs.erase w }.goto t (.weakLoad .wrc)
      else s.goto t .idle

/-- The thread has an `sptr`, or it may use the raw pointer. -/
def MayUse (s : State ι) (t : ι) : Prop :=
  0 < (s.threads t).sptrs ∨ t = s.creator ∧ s.shared = false ∧ s.invoked = 0

instance (s : State ι) (t : ι) : Decidable (s.MayUse t) := by
  unfold MayUse
  infer_instance

end State

inductive Act (ι : Type)
  /-- A new `sptr`, from an `sptr` of the thread or from the raw pointer. -/
  | newSptr
  /-- `~sptr` and `clear`. -/
  | clearSptr
  | promote (w : Nat)
  /-- A new `wptr`, from an `sptr` of the thread or from the raw pointer. -/
  | newWptr
  | copyWptr (w : Nat)
  | dropWptr (w : Nat)
  | giveSptr (u : ι)
  | giveWptr (u : ι) (w : Nat)
  | go (spurious canPromote : Bool)

namespace State

def takeWptr (s : State ι) (t : ι) (pc : Pc) (w : Nat) : State ι :=
  s.setThread t { s.threads t with
    pc, wptrs := Function.update (s.threads t).wptrs w ((s.threads t).wptrs w - 1) }

/-- What an idle thread can begin. -/
def start (s : State ι) (t : ι) : Act ι → State ι
  | .newSptr => if s.MayUse t then s.goto t .incWeak else s
  | .clearSptr =>
      if 0 < (s.threads t).sptrs then
        s.setThread t { s.threads t with pc := .decLoad, sptrs := (s.threads t).sptrs - 1 }
      else s
  | .promote w => if 0 < (s.threads t).wptrs w then s.goto t (.attemptLoad w) else s
  | .newWptr => if s.MayUse t then s.goto t .newRef else s
  | .copyWptr w => if 0 < (s.threads t).wptrs w then s.goto t (.copyAdd w) else s
  | .dropWptr w => if 0 < (s.threads t).wptrs w then s.takeWptr t (.dropSub w) w else s
  | .giveSptr u =>
      if 0 < (s.threads t).sptrs then
        let s := s.setThread t { s.threads t with sptrs := (s.threads t).sptrs - 1 }
        { s with shared := true }.setThread u
          { s.threads u with sptrs := (s.threads u).sptrs + 1 }
      else s
  | .giveWptr u w =>
      if 0 < (s.threads t).wptrs w then
        let s := s.takeWptr t .idle w
        { s with shared := true }.setThread u { s.threads u with
          wptrs := Function.update (s.threads u).wptrs w ((s.threads u).wptrs w + 1) }
      else s
  | .go _ _ => s

/-- Thread `t` takes its next step. -/
def step (s : State ι) : ι × Act ι → State ι
  | (t, .go spurious canPromote) => s.go t spurious canPromote
  | (t, a) =>
      match (s.threads t).pc with
      | .idle => s.start t a
      | _ => s

def run (s : State ι) (as : List (ι × Act ι)) : State ι := as.foldl step s

/-- `RefBase()`, in the creating thread. -/
def new (creator : ι) : State ι where
  refs := { refCount := 1, callback := true }
  wrcs := ∅
  wrc _ := {}
  next := 0
  threads _ := {}
  creator := creator
  shared := false
  invoked := 0
  freed := 0

end State

end

end CUtils.RefBases.Threads
