import CUtils.Parcel.Readers

/-!
# Remote objects and parcelables

A `Parcelable` brings its own `Marshalling`, which uses the parcel again, so its effect is a
program over the parcel. An object passed by pointer is `none` when the pointer is null. The
`behavior` of a `Parcelable` is the one it has when it is passed; `WriteStrongParcelable` sets
`HOLD_OBJECT` before it goes on.
-/

namespace CUtils

open StateRun ByteMemory Parcel

structure Parcelable where
  /-- The identity of the object. -/
  id : Nat
  asRemote : Bool
  behavior : BitVec 8
  marshalling : ParcelM Bool

/-- `BehaviorFlag::HOLD_OBJECT`. -/
def holdObject : BitVec 8 := 0x10

def Parcelable.setBehavior (o : Parcelable) (b : BitVec 8) : Parcelable :=
  { o with behavior := o.behavior ||| b }

def Parcelable.testBehavior (o : Parcelable) (b : BitVec 8) : Bool := o.behavior &&& b != 0

/-! ## The offset table -/

/-- The room test is an unsigned subtraction. -/
def ensureObjectsCapacity : ParcelM Bool := do
  let p ← get
  if szSub p.objectsCapacity p.objectCursor ≥ 1 then return true
  if p.allocator.isNone then return false
  let newCapacity := szMul (szAdd p.objectsCapacity 2) 3 / 2
  match ← alloc (szMul newCapacity binderSize) with
  | none => return false
  | some _ =>
      modify fun p => { p with objectOffsets := some p.offsets, objectsCapacity := newCapacity }
      return true

def writeObjectOffset (offset : Nat) : ParcelM Bool := do
  let p ← get
  if offset > p.dataSize then return false
  if p.offsets.contains offset then return false
  set
    { p with
      objectOffsets := some (p.offsets ++ [offset])
      log := ⟨.slot, p.objectCursor, 1, p.objectsCapacity⟩ :: p.log }
  return true

/-- One round of the loop of `InjectOffsets`; the result of storing the offset is dropped. -/
def injectOffset (offset : Nat) : ParcelM Unit := do
  if ← ensureObjectsCapacity then
    let _ ← writeObjectOffset offset

def injectOffsets (offsets : Option (List Nat)) : ParcelM Unit :=
  (offsets.getD []).forM injectOffset

/-! ## Writing objects -/

/-- Keep the object alive: `objectHolder_.push_back(tmp)`. -/
def holdParcelable (o : Parcelable) (offset : Nat) : ParcelM Unit :=
  modify fun p =>
    { p with objectHolder := p.objectHolder ++ [some o.id], held := (offset, o.id) :: p.held }

def writeRemoteObject (object : Option Parcelable) : ParcelM Bool := do
  let placeholder := (← get).writeCursor
  match object with
  -- Parcelable is nullptr
  | none => return false
  | some o =>
      if !o.asRemote then return false
      if !(← ensureObjectsCapacity) then return false
      if !(← o.marshalling) then return false
      let _ ← writeObjectOffset placeholder
      if o.testBehavior holdObject then holdParcelable o placeholder
      return true

variable [Target]

def writeParcelable (object : Option Parcelable) : ParcelM Bool := do
  let placeholder := (← get).writeCursor
  let restorSize := (← get).dataSize
  match object with
  -- write the meta data to indicate pass an null object.
  | none => writeInt32 0
  | some o =>
      if !o.asRemote then
        -- meta data indicate we have an parcelable object.
        if !(← writeInt32 1) then return false
        o.marshalling
      else
        -- Write the remote object flag
        if !(← writeInt32 1) then return false
        if ← writeRemoteObject (some o) then return true
        -- rollback the write position.
        modify fun p => { p with writeCursor := placeholder, dataSize := restorSize }
        return false

def writeStrongParcelable (object : Option Parcelable) : ParcelM Bool := do
  match object with
  | none =>
      let _ ← writeInt32 0
      return true
  | some o => writeParcelable (some (o.setBehavior holdObject))

/-- `ReadObject<T>`, for an object that is restored by `unmarshalling`. -/
def readObject {α : Type} (unmarshalling : ParcelM (Option α)) : ParcelM (Option α) := do
  if !(← checkOffsets) then return none
  unmarshalling

end CUtils
