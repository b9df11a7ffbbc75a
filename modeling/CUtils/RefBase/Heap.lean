import Mathlib.Algebra.BigOperators.Group.Finset.Basic
import Mathlib.Algebra.Order.BigOperators.Group.Finset
import CUtils.Lib.CallStack
import CUtils.RefBase.Model

/-!
# A heap of objects

Many objects that derive from `RefBase`, where the members of an object may be `sptr`s and `wptr`s
themselves. An object has the counters of `RefBase.Model`; `delete` calls the destructors of its
members one after another and then `~RefBase`, and each of them may delete further objects before it
returns. The calls that are still to be made are the stack of a machine.

`sptr`s and `wptr`s have a place, a number, whether they are members or not. What the derived
classes override does nothing to the references, except that the answer of `CanPromote` is an
argument. `undefined` is set when an object or a smart pointer is used that does not exist any more.
-/

namespace CUtils.RefBases

open CallStack

/-- A smart pointer at its place. -/
inductive Ref
  | sptr (l : Nat)
  | wptr (l : Nat)
  deriving DecidableEq, Repr

/-- A function that is still to be called, on the object or the smart pointer. -/
inductive Call
  /-- `~sptr` or `~wptr`. -/
  | drop (r : Ref)
  | decStrongRef (x : Nat)
  | decWeakRefCount (x : Nat)
  /-- `~RefBase`. -/
  | destructor (x : Nat)
  | decRefCount (x : Nat)
  deriving DecidableEq, Repr

structure Heap where
  /-- The objects whose destructor has not been called. -/
  alive : Finset Nat
  refs : Nat → RefCounter
  /-- The members of an object that are smart pointers, in the order of their destruction. -/
  members : Nat → List Ref
  /-- The `sptr`s that exist, and their `refs_`. -/
  sptrs : Finset Nat
  ptr : Nat → Option Nat
  /-- The `wptr`s that exist, and their `refs_`. -/
  wptrs : Finset Nat
  target : Nat → Option Nat
  /-- The `WeakRefCounter`s that have not been deleted, and the object each is for. -/
  wrcs : Finset Nat
  wrc : Nat → WeakRefCounter
  object : Nat → Nat
  undefined : Bool

/-! ## The counters -/

namespace RefCounter

def decRef (c : RefCounter) : RefCounter :=
  if c.refCount > 0 then { c with refCount := int32 (c.refCount - 1) } else c

/-- `DecStrongRefCount`, which returns the count before. -/
def decStrong (c : RefCounter) : Int × RefCounter :=
  if c.strong = initialPrimaryValue then (c.strong, c)
  else if c.strong > 0 then (c.strong, { c with strong := int32 (c.strong - 1) })
  else (c.strong, c)

/-- `DecWeakRefCount` up to the test for the last reference. -/
def decWeak (c : RefCounter) : RefCounter :=
  if c.weak > 0 then { c with weak := int32 (c.weak - 1) } else c

/-- `IncStrongRef`. -/
def incStrong (c : RefCounter) : RefCounter :=
  let c := { c with weak := int32 (c.weak + 1) }
  if c.strong ≥ 0 then
    let strong := int32 (c.strong + 1)
    if c.strong = initialPrimaryValue then { c with strong := int32 (strong - initialPrimaryValue) }
    else { c with strong := strong }
  else c

/-- What `~RefBase` does to the counter. -/
def leave (c : RefCounter) : RefCounter :=
  let c := { c with callback := false }
  if (c.extended ∧ c.weak = 0) ∨ c.strong = initialPrimaryValue then c.decRef else c

end RefCounter

/-- The counters are those of the single object. -/
theorem State.refs_agree (s : State) :
    s.decRefCount.refs = s.refs.decRef ∧
      (s.decStrongRefCount.1, s.decStrongRefCount.2.refs) = s.refs.decStrong ∧
      s.incStrongRef.refs = s.refs.incStrong ∧ s.destructor.refs = s.refs.leave := by
  have hdecRef : ∀ s : State, s.decRefCount.refs = s.refs.decRef := by
    intro s
    unfold State.decRefCount RefCounter.decRef
    split <;> rfl
  refine ⟨hdecRef s, ?_, ?_, ?_⟩
  · unfold State.decStrongRefCount RefCounter.decStrong
    simp only
    split_ifs <;> rfl
  · have hinc : s.incStrongRef.refs = s.incWeakRefCount.incStrongRefCount.2.refs := by
      unfold State.incStrongRef
      simp only
      split_ifs <;> rfl
    rw [hinc]
    unfold State.incStrongRefCount RefCounter.incStrong
    by_cases hpos : s.refs.strong ≥ 0
    · by_cases hinit : s.refs.strong = initialPrimaryValue
      · have hnonneg : (0 : Int) ≤ initialPrimaryValue := by decide
        simp [State.incWeakRefCount, State.setWeak, State.setStrong, hinit, hnonneg]
      · simp [State.incWeakRefCount, State.setWeak, State.setStrong, hpos, hinit]
    · simp [State.incWeakRefCount, State.setWeak, hpos]
  · unfold State.destructor RefCounter.leave
    simp only
    split_ifs
    · exact hdecRef _
    · rfl

namespace Heap

def setRefs (h : Heap) (x : Nat) (c : RefCounter) : Heap :=
  { h with refs := Function.update h.refs x c }

def setWrc (h : Heap) (c : Nat) (w : WeakRefCounter) : Heap :=
  { h with wrc := Function.update h.wrc c w }

def eraseObject (h : Heap) (x : Nat) : Heap := { h with alive := h.alive.erase x }

def eraseSptr (h : Heap) (l : Nat) : Heap := { h with sptrs := h.sptrs.erase l }

def eraseWptr (h : Heap) (l : Nat) : Heap := { h with wptrs := h.wptrs.erase l }

def eraseWrc (h : Heap) (c : Nat) : Heap := { h with wrcs := h.wrcs.erase c }

/-! ## The calls -/

/-- `callback_()`, if it is set: `RefPtrCallback` deletes the object. -/
def callback (h : Heap) (x : Nat) : Heap × List Call :=
  if (h.refs x).callback then
    if x ∈ h.alive then
      (h.eraseObject x, (h.members x).map .drop ++ [.destructor x])
    else ({ h with undefined := true }, [])
  else (h, [])

def dropSptr (h : Heap) (l : Nat) : Heap × List Call :=
  if l ∈ h.sptrs then
    (h.eraseSptr l, (h.ptr l).toList.map .decStrongRef)
  else ({ h with undefined := true }, [])

/-- `WeakRefCounter::DecWeakRefCount`. With the last `wptr` it is deleted, and with it goes its
reference to the `RefCounter`. -/
def dropWrc (h : Heap) (c : Nat) : Heap × List Call :=
  let count := (h.wrc c).weak
  let h := h.setWrc c { h.wrc c with weak := int32 (count - 1) }
  if count = 1 then
    (h.eraseWrc c, [.decWeakRefCount (h.object c), .decRefCount (h.object c)])
  else (h, [])

def dropWptr (h : Heap) (l : Nat) : Heap × List Call :=
  if l ∈ h.wptrs then
    match h.target l with
    | some c => (h.eraseWptr l).dropWrc c
    | none => (h.eraseWptr l, [])
  else ({ h with undefined := true }, [])

def decStrongRef (h : Heap) (x : Nat) : Heap × List Call :=
  if (h.refs x).callback then
    let dec := (h.refs x).decStrong
    let h := h.setRefs x dec.2
    if dec.1 = 1 ∧ !dec.2.extended then
      ((h.callback x).1, (h.callback x).2 ++ [.decWeakRefCount x])
    else (h, [.decWeakRefCount x])
  -- the object is not there any more
  else ({ h with undefined := true }, [])

def decWeakRefCount (h : Heap) (x : Nat) : Heap × List Call :=
  let curCount := (h.refs x).weak
  let c := (h.refs x).decWeak
  let h := h.setRefs x c
  if curCount ≠ 1 then (h, [])
  else if c.extended then h.callback x
  else if c.strong = initialPrimaryValue then h.callback x
  else (h.setRefs x c.decRef, [])

def step (h : Heap) : Call → Heap × List Call
  | .drop (.sptr l) => h.dropSptr l
  | .drop (.wptr l) => h.dropWptr l
  | .decStrongRef x => h.decStrongRef x
  | .decWeakRefCount x => h.decWeakRefCount x
  | .destructor x => (h.setRefs x (h.refs x).leave, [])
  | .decRefCount x => (h.setRefs x (h.refs x).decRef, [])

/-! ## Every call returns -/

/-- What the objects that are alive can still give rise to. -/
def size (h : Heap) : Nat := ∑ x ∈ h.alive, (3 * (h.members x).length + 1)

def weight : Call → Nat
  | .drop _ => 3
  | .decStrongRef _ => 2
  | _ => 1

theorem size_setRefs (h : Heap) (x : Nat) (c : RefCounter) : (h.setRefs x c).size = h.size := rfl

theorem sum_weight_drops (rs : List Ref) : ((rs.map Call.drop).map weight).sum = 3 * rs.length := by
  induction rs with
  | nil => rfl
  | cons r rs ih =>
      simp only [List.map_cons, List.sum_cons, ih, weight, List.length_cons]
      omega

/-- The members and the destructor of an object weigh what its death takes away. -/
theorem size_callback (h : Heap) (x : Nat) :
    (h.callback x).1.size + ((h.callback x).2.map weight).sum ≤ h.size := by
  unfold callback
  split_ifs with hcb hx
  · have hsum : h.size = ∑ y ∈ h.alive.erase x, (3 * (h.members y).length + 1) +
        (3 * (h.members x).length + 1) := (Finset.sum_erase_add _ _ hx).symm
    rw [List.map_append, List.sum_append, sum_weight_drops, hsum]
    simp only [List.map_cons, List.map_nil, List.sum_cons, List.sum_nil, weight]
    exact Nat.le_of_eq rfl
  · simp [size]
  · simp

theorem size_decStrongRef (h : Heap) (x : Nat) :
    (h.decStrongRef x).1.size + ((h.decStrongRef x).2.map weight).sum < h.size + 2 := by
  unfold decStrongRef
  simp only
  split_ifs with hcb hlast
  · have hsize := size_callback (h.setRefs x (h.refs x).decStrong.2) x
    rw [size_setRefs] at hsize
    simp only [List.map_append, List.sum_append, List.map_cons, List.map_nil, List.sum_cons,
      List.sum_nil, weight]
    omega
  · simp [size_setRefs, weight]
  · simp [size]

theorem size_decWeakRefCount (h : Heap) (x : Nat) :
    (h.decWeakRefCount x).1.size + ((h.decWeakRefCount x).2.map weight).sum < h.size + 1 := by
  have hsize := size_callback (h.setRefs x (h.refs x).decWeak) x
  rw [size_setRefs] at hsize
  unfold decWeakRefCount
  simp only
  split_ifs with hlast hext hnever
  · simp [size_setRefs]
  · omega
  · omega
  · simp [size_setRefs]

theorem step_decreases (h : Heap) (c : Call) :
    (h.step c).1.size + ((h.step c).2.map weight).sum < h.size + weight c := by
  cases c with
  | drop r =>
      cases r with
      | sptr l =>
          simp only [step, dropSptr]
          split_ifs
          · cases hl : h.ptr l <;> simp [size, eraseSptr, weight]
          · simp [size, weight]
      | wptr l =>
          simp only [step, dropWptr]
          split_ifs
          · cases hl : h.target l with
            | none => simp [size, eraseWptr, weight]
            | some c =>
                simp only [dropWrc]
                split_ifs <;> simp [size, eraseWptr, setWrc, eraseWrc, weight]
          · simp [size, weight]
  | decStrongRef x => exact size_decStrongRef h x
  | decWeakRefCount x => exact size_decWeakRefCount h x
  | destructor x => simp [step, weight, size_setRefs]
  | decRefCount x => simp [step, weight, size_setRefs]

def calls : Machine Heap Call where
  step := step
  size := size
  weight := weight
  decreases := step_decreases

/-! ## The operations -/

/-- `x->DecStrongRef`, until it returns. -/
def release (h : Heap) (x : Nat) : Heap := calls.run h [.decStrongRef x]

def incStrongRef (h : Heap) (x : Nat) : Heap := h.setRefs x (h.refs x).incStrong

/-- `if (refs_ != nullptr) refs_->DecStrongRef(this)`, for the `sptr` `a`. -/
def releaseOld (h : Heap) (a : Nat) : Heap :=
  match h.ptr a with
  | some x => h.release x
  | none => h

/-- `otherRef->IncStrongRef(this)`, if `otherRef` is not null. -/
def take (h : Heap) (otherRef : Option Nat) : Heap :=
  match otherRef with
  | some x => h.incStrongRef x
  | none => h

/-- `refs_ = p`, for the `sptr` `a`. -/
def setPtr (h : Heap) (a : Nat) (p : Option Nat) : Heap :=
  if a ∈ h.sptrs then { h with ptr := Function.update h.ptr a p } else { h with undefined := true }

/-- `a = std::move(b)`. -/
def moveAssign (h : Heap) (a b : Nat) : Heap :=
  let h := h.releaseOld a
  if b ∈ h.sptrs then (h.setPtr a (h.ptr b)).setPtr b none else { h with undefined := true }

/-- `a = b`. -/
def copyAssign (h : Heap) (a b : Nat) : Heap :=
  let otherRef := h.ptr b
  ((h.take otherRef).releaseOld a).setPtr a otherRef

/-- `b.clear()`. -/
def clear (h : Heap) (b : Nat) : Heap :=
  if b ∈ h.sptrs then
    match h.ptr b with
    | some x => (h.release x).setPtr b none
    | none => h
  else { h with undefined := true }

/-- `WeakRefCounter::GetRefPtr`, for the counter of the `wptr` `w`. -/
def getRefPtr (h : Heap) (w : Nat) : Option Nat × Heap :=
  match h.target w with
  | some c =>
      let h :=
        if (h.wrc c).cookie ∧ !(h.refs (h.object c)).callback then
          h.setWrc c { h.wrc c with cookie := false }
        else h
      (if (h.wrc c).cookie then some (h.object c) else none, h)
  | none => (none, h)

/-- `AttemptIncStrongRef` from `ATTEMPT_SUCCESS` on, with `curCount`. -/
def attemptSuccess (h : Heap) (x : Nat) (curCount : Int) : Bool × Heap :=
  let c := h.refs x
  if curCount = initialPrimaryValue then
    (true, h.setRefs x { c with strong := int32 (c.strong - initialPrimaryValue) })
  else if curCount < 0 ∨ (!c.extended ∧ curCount = 0) then
    (false, calls.run h [.decWeakRefCount x])
  else (true, h)

/-- `RefCounter::AttemptIncStrongRef`. -/
def attemptIncStrongRef (h : Heap) (x : Nat) (canPromote : Bool) : Bool × Heap :=
  let curCount := (h.refs x).strong
  let c := { h.refs x with weak := int32 ((h.refs x).weak + 1) }
  if (curCount > 0 ∧ curCount ≠ initialPrimaryValue) ∨
      (curCount = initialPrimaryValue ∧ !c.extended) then
    (h.setRefs x { c with strong := int32 (curCount + 1) }).attemptSuccess x curCount
  else if c.extended then
    if !canPromote then (false, h.setRefs x c)
    else (h.setRefs x { c with strong := int32 (curCount + 1) }).attemptSuccess x curCount
  else (h.setRefs x c).attemptSuccess x curCount

/-- `a = w`, from the attempt to promote `x` on. -/
def assignAttempt (h : Heap) (a w x : Nat) (canPromote : Bool) : Heap :=
  match h.attemptIncStrongRef x canPromote with
  | (true, h) => (h.getRefPtr w).2.setPtr a (h.getRefPtr w).1
  | (false, h) => h.setPtr a none

/-- `a = w`. -/
def assignWptr (h : Heap) (a w : Nat) (canPromote : Bool) : Heap :=
  let h := h.releaseOld a
  if w ∈ h.wptrs then
    match h.getRefPtr w with
    | (some x, h) => h.assignAttempt a w x canPromote
    | (none, h) => h.setPtr a none
  else { h with undefined := true }

/-- `w.promote()`: the pointer of the `sptr` that is returned, by `sptr(WeakRefCounter *, bool)`. -/
def promote (h : Heap) (w : Nat) (canPromote : Bool) : Option Nat × Heap :=
  match h.target w with
  | some c =>
      match h.attemptIncStrongRef (h.object c) canPromote with
      | (true, h) => h.getRefPtr w
      | (false, h) => (none, h)
  | none => (none, h)

/-- `a = w.promote()`. The returned `sptr` is const, so it is copied, and then it is destroyed. It
has no place of its own: nothing else gets to see it. -/
def promoteAssign (h : Heap) (a w : Nat) (canPromote : Bool) : Heap :=
  let promoted := (h.promote w canPromote).1
  let h := (h.promote w canPromote).2
  let h := ((h.take promoted).releaseOld a).setPtr a promoted
  match promoted with
  | some x => h.release x
  | none => h

end Heap

end CUtils.RefBases
