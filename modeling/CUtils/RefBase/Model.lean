import Mathlib.Data.Finset.Card
import Mathlib.Logic.Function.Basic
import Mathlib.Algebra.Group.Int.Defs
import Mathlib.Algebra.Group.Nat.Defs

/-!
# Reference counting

One heap object that derives from `RefBase`, with its `RefCounter`, the `WeakRefCounter`s made for
it, and the `sptr`s and `wptr`s that are not null. `std::atomic<int>` is a 32-bit integer that wraps
around. Here one thread is at work, so a compare-exchange that fails spuriously is repeated with the
same value; `RefBase.Threads` has the single steps.

`OnFirstStrongRef`, `OnLastStrongRef` and the destructor of the derived class do nothing to the
references; calls of the first one are counted. `CanPromote` and `OnAttemptPromoted` are virtual:
what they return is an argument of the operation.
-/

namespace CUtils.RefBases

/-- `INITIAL_PRIMARY_VALUE`. -/
def initialPrimaryValue : Int := 2 ^ 28

/-- The value of an `int` that has been added to or subtracted from. -/
def int32 (n : Int) : Int := n.bmod (2 ^ 32)

structure RefCounter where
  strong : Int := initialPrimaryValue
  weak : Int := 0
  refCount : Int := 0
  /-- `FLAG_EXTEND_LIFE_TIME` is set. -/
  extended : Bool := false
  attempt : Int := 0
  /-- `callback_` is set. -/
  callback : Bool := false

structure WeakRefCounter where
  weak : Int := 0
  /-- `cookie_` is not null. -/
  cookie : Bool := true

structure State where
  refs : RefCounter
  /-- The `WeakRefCounter`s that have not been deleted, and the number of the next one. -/
  wrcs : Finset Nat
  wrc : Nat → WeakRefCounter
  next : Nat
  sptrs : Finset Nat
  wptrs : Finset Nat
  /-- The `WeakRefCounter` of a `wptr`. -/
  target : Nat → Nat
  /-- How often the destructor of the object has run. -/
  destroyed : Nat
  /-- How often the `RefCounter` has been deleted. -/
  freed : Nat
  /-- How often it has been deleted before the destructor of the object had run. -/
  early : Nat
  /-- How often `OnFirstStrongRef` has been called. -/
  fired : Nat

namespace State

/-! ## `RefCounter` -/

def incRefCount (s : State) : State :=
  { s with refs := { s.refs with refCount := int32 (s.refs.refCount + 1) } }

def decRefCount (s : State) : State :=
  if s.refs.refCount > 0 then
    { s with
      refs := { s.refs with refCount := int32 (s.refs.refCount - 1) }
      freed := if s.refs.refCount = 1 then s.freed + 1 else s.freed
      early := if s.refs.refCount = 1 ∧ s.destroyed = 0 then s.early + 1 else s.early }
  else s

def setStrong (s : State) (n : Int) : State := { s with refs := { s.refs with strong := int32 n } }

def setWeak (s : State) (n : Int) : State := { s with refs := { s.refs with weak := int32 n } }

/-- The count before is returned. -/
def incStrongRefCount (s : State) : Int × State :=
  let curCount := s.refs.strong
  if curCount ≥ 0 then
    let s := s.setStrong (curCount + 1)
    if curCount = initialPrimaryValue then
      (curCount, s.setStrong (s.refs.strong - initialPrimaryValue))
    else (curCount, s)
  else (curCount, s)

def decStrongRefCount (s : State) : Int × State :=
  let curCount := s.refs.strong
  if curCount = initialPrimaryValue then (curCount, s)
  else if curCount > 0 then (curCount, s.setStrong (curCount - 1))
  else (curCount, s)

def incWeakRefCount (s : State) : State := s.setWeak (s.refs.weak + 1)

/-- `~RefBase`. -/
def destructor (s : State) : State :=
  let s := { s with refs := { s.refs with callback := false }, destroyed := s.destroyed + 1 }
  if (s.refs.extended ∧ s.refs.weak = 0) ∨ s.refs.strong = initialPrimaryValue then s.decRefCount
  else s

/-- `callback_()`, if it is set: `RefPtrCallback` deletes the object. -/
def callback (s : State) : State := if s.refs.callback then s.destructor else s

def decWeakRefCount (s : State) : State :=
  let curCount := s.refs.weak
  let s := if curCount > 0 then s.setWeak (curCount - 1) else s
  if curCount ≠ 1 then s
  else if s.refs.extended then s.callback
  else if s.refs.strong = initialPrimaryValue then s.callback
  else s.decRefCount

/-- `AttemptIncStrongRef` from `ATTEMPT_SUCCESS` on, with `curCount`: the result and `outCount`. -/
def attemptSuccess (s : State) (curCount : Int) : Bool × Int × State :=
  if curCount = initialPrimaryValue then
    (true, curCount, s.setStrong (s.refs.strong - initialPrimaryValue))
  else if curCount < 0 ∨ (!s.refs.extended ∧ curCount = 0) then (false, 0, s.decWeakRefCount)
  else (true, 0, s)

/-- `RefCounter::AttemptIncStrongRef`: the result, `outCount` (zero if it is not set) and the
state. -/
def counterAttemptIncStrongRef (s : State) (canPromote : Bool) : Bool × Int × State :=
  let curCount := s.refs.strong
  let s := s.incWeakRefCount
  if (curCount > 0 ∧ curCount ≠ initialPrimaryValue) ∨
      (curCount = initialPrimaryValue ∧ !s.refs.extended) then
    (s.setStrong (curCount + 1)).attemptSuccess curCount
  else if s.refs.extended then
    if !canPromote then (false, 0, s)
    else (s.setStrong (s.refs.strong + 1)).attemptSuccess s.refs.strong
  else s.attemptSuccess curCount

/-! ## `RefBase` -/

def onFirstStrongRef (s : State) : State := { s with fired := s.fired + 1 }

def incStrongRef (s : State) : State :=
  let inc := s.incWeakRefCount.incStrongRefCount
  if inc.1 = initialPrimaryValue then inc.2.onFirstStrongRef else inc.2

def decStrongRef (s : State) : State :=
  let dec := s.decStrongRefCount
  let s := if dec.1 = 1 ∧ !dec.2.refs.extended then dec.2.callback else dec.2
  s.decWeakRefCount

def attemptAcquire (s : State) (canPromote : Bool) : Bool × State :=
  match s.counterAttemptIncStrongRef canPromote with
  | (true, count, s) =>
      let s := { s with refs := { s.refs with attempt := int32 (s.refs.attempt + 1) } }
      (true, if count = initialPrimaryValue then s.onFirstStrongRef else s)
  | (false, _, s) => (false, s)

/-- `RefBase::AttemptIncStrongRef`; `promoted` is what `OnAttemptPromoted` returns. -/
def attemptIncStrongRef (s : State) (promoted canPromote : Bool) : Bool × State :=
  if promoted then
    let attempt := s.counterAttemptIncStrongRef canPromote
    (attempt.1,
      if attempt.2.1 = initialPrimaryValue then attempt.2.2.onFirstStrongRef else attempt.2.2)
  else (false, s)

def checkIsAttemptAcquireSet (s : State) : State :=
  if s.refs.attempt > 0 then
    let s := { s with refs := { s.refs with attempt := int32 (s.refs.attempt - 1) } }
    s.decStrongRefCount.2.decWeakRefCount
  else s

/-! ## `WeakRefCounter` -/

def setWrc (s : State) (w : Nat) (c : WeakRefCounter) : State :=
  { s with wrc := Function.update s.wrc w c }

/-- `CreateWeakRef`: the new one has the number `next`. -/
def createWeakRef (s : State) : State :=
  { s.setWrc s.next {} with wrcs := insert s.next s.wrcs, next := s.next + 1 }.incRefCount

def wrcIncWeakRefCount (s : State) (w : Nat) : State :=
  let count := (s.wrc w).weak
  let s := s.setWrc w { s.wrc w with weak := int32 (count + 1) }
  if count = 0 then s.incWeakRefCount else s

/-- With the last `wptr` it is deleted. -/
def wrcDecWeakRefCount (s : State) (w : Nat) : State :=
  let count := (s.wrc w).weak
  let s := s.setWrc w { s.wrc w with weak := int32 (count - 1) }
  if count = 1 then
    let s := s.decWeakRefCount
    { s with wrcs := s.wrcs.erase w }.decRefCount
  else s

/-- `GetRefPtr`: whether the pointer is not null. -/
def getRefPtr (s : State) (w : Nat) : Bool × State :=
  let s := if (s.wrc w).cookie ∧ !s.refs.callback then s.setWrc w { s.wrc w with cookie := false } else s
  ((s.wrc w).cookie, s)

/-- `WeakRefCounter::AttemptIncStrongRef`: what becomes of `outCount` is not looked at. -/
def wrcAttemptIncStrongRef (s : State) (canPromote : Bool) : Bool × State :=
  let attempt := s.counterAttemptIncStrongRef canPromote
  (attempt.1, attempt.2.2)

/-! ## `sptr` -/

/-- `sptr(T *)`. -/
def newSptr (s : State) (i : Nat) : State := { s with sptrs := insert i s.sptrs }.incStrongRef

/-- `sptr(const sptr &)`. -/
def copySptr (s : State) (i j : Nat) : State := if i ∈ s.sptrs then s.newSptr j else s

/-- `sptr(sptr &&)`. -/
def moveSptr (s : State) (i j : Nat) : State :=
  if i ∈ s.sptrs then { s with sptrs := insert j (s.sptrs.erase i) } else s

/-- `~sptr` and `clear`. -/
def clearSptr (s : State) (i : Nat) : State :=
  if i ∈ s.sptrs then
    let s := s.decStrongRef
    { s with sptrs := s.sptrs.erase i }
  else s

/-- `j = i`. -/
def assignSptr (s : State) (i j : Nat) : State :=
  if i ∈ s.sptrs then
    let s := s.incStrongRef
    let s := if j ∈ s.sptrs then s.decStrongRef else s
    { s with sptrs := insert j s.sptrs }
  else s.clearSptr j

/-- `sptr(WeakRefCounter *, bool)`, for the counter of the `wptr` `w`. -/
def takeSptr (s : State) (w i : Nat) (canPromote : Bool) : State :=
  match s.wrcAttemptIncStrongRef canPromote with
  | (true, s) =>
      let get := s.getRefPtr (s.target w)
      if get.1 then { get.2 with sptrs := insert i get.2.sptrs } else get.2
  | (false, s) => s

/-- `w.promote()`, for a new `sptr`. -/
def promote (s : State) (w i : Nat) (canPromote : Bool) : State :=
  if w ∈ s.wptrs then s.takeSptr w i canPromote else s

/-- `i = w`. -/
def assignWptrToSptr (s : State) (w i : Nat) (canPromote : Bool) : State :=
  let s := s.clearSptr i
  if w ∈ s.wptrs then
    let get := s.getRefPtr (s.target w)
    if get.1 then get.2.takeSptr w i canPromote else get.2
  else s

/-! ## `wptr` -/

/-- `wptr(T *)` and `wptr(const sptr &)`. -/
def newWptr (s : State) (i : Nat) : State :=
  let s' := s.createWeakRef.wrcIncWeakRefCount s.next
  { s' with wptrs := insert i s'.wptrs, target := Function.update s'.target i s.next }

/-- `wptr(const wptr &)`. -/
def copyWptr (s : State) (i j : Nat) : State :=
  if i ∈ s.wptrs then
    let s' := s.wrcIncWeakRefCount (s.target i)
    { s' with wptrs := insert j s'.wptrs, target := Function.update s'.target j (s.target i) }
  else s

/-- `~wptr`. -/
def dropWptr (s : State) (i : Nat) : State :=
  if i ∈ s.wptrs then
    let s' := s.wrcDecWeakRefCount (s.target i)
    { s' with wptrs := s'.wptrs.erase i }
  else s

/-- `j = i`. -/
def assignWptr (s : State) (i j : Nat) : State :=
  if i ∈ s.wptrs then
    let s' := s.wrcIncWeakRefCount (s.target i)
    let s' := if j ∈ s'.wptrs then s'.wrcDecWeakRefCount (s'.target j) else s'
    { s' with wptrs := insert j s'.wptrs, target := Function.update s'.target j (s.target i) }
  else s.dropWptr j

/-- `j = i` for an `sptr` `i`, or for the raw pointer. -/
def assignSptrToWptr (s : State) (j : Nat) : State :=
  let s' := s.createWeakRef.wrcIncWeakRefCount s.next
  let s' := if j ∈ s'.wptrs then s'.wrcDecWeakRefCount (s'.target j) else s'
  { s' with wptrs := insert j s'.wptrs, target := Function.update s'.target j s.next }

end State

/-! ## Runs -/

inductive Op
  | newSptr (i : Nat)
  | copySptr (i j : Nat)
  | moveSptr (i j : Nat)
  | clearSptr (i : Nat)
  | assignSptr (i j : Nat)
  | promote (w i : Nat) (canPromote : Bool)
  | assignWptrToSptr (w i : Nat) (canPromote : Bool)
  | newWptr (i : Nat)
  | copyWptr (i j : Nat)
  | dropWptr (i : Nat)
  | assignWptr (i j : Nat)
  | assignSptrToWptr (j : Nat)
  | attemptAcquire (canPromote : Bool)
  | attemptIncStrongRef (promoted canPromote : Bool)
  | checkIsAttemptAcquireSet
  | decStrongRef

def State.step (s : State) : Op → State
  | .newSptr i => s.newSptr i
  | .copySptr i j => s.copySptr i j
  | .moveSptr i j => s.moveSptr i j
  | .clearSptr i => s.clearSptr i
  | .assignSptr i j => s.assignSptr i j
  | .promote w i canPromote => s.promote w i canPromote
  | .assignWptrToSptr w i canPromote => s.assignWptrToSptr w i canPromote
  | .newWptr i => s.newWptr i
  | .copyWptr i j => s.copyWptr i j
  | .dropWptr i => s.dropWptr i
  | .assignWptr i j => s.assignWptr i j
  | .assignSptrToWptr j => s.assignSptrToWptr j
  | .attemptAcquire canPromote => (s.attemptAcquire canPromote).2
  | .attemptIncStrongRef promoted canPromote => (s.attemptIncStrongRef promoted canPromote).2
  | .checkIsAttemptAcquireSet => s.checkIsAttemptAcquireSet
  | .decStrongRef => s.decStrongRef

def State.run (s : State) (ops : List Op) : State := ops.foldl State.step s

/-- `RefBase()`, and `ExtendObjectLifetime()` if the lifetime is to be extended. -/
def State.new (extended : Bool) : State :=
  State.incRefCount
    { refs := { extended, callback := true }
      wrcs := ∅, wrc := fun _ => {}, next := 0, sptrs := ∅, wptrs := ∅, target := fun _ => 0
      destroyed := 0, freed := 0, early := 0, fired := 0 }

end CUtils.RefBases
