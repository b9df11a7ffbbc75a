import CUtils.Lib.StateRun
import CUtils.Lib.ByteMemory

/-!
# The parcel: state and storage

`Parcel` is the record of `parcel.h`, field by field, with four additions that the C++ object
does not store but that its behaviour depends on or that the results talk about:

* `heap` — what the allocation calls still to come will return. Every call takes the next
  entry, so a run is a function of the initial state and every pattern of failing allocations
  is some `heap`.
* `log` — the ranges the code has stored to or handed out, each with the bound that range had
  to respect at that moment.
* `held` — the objects with `HOLD_OBJECT` written so far whose offset has stayed in the table.
* `blocks` — which block `data_` points at, and the calls of allocators so far.

Sizes and positions are `size_t`: natural numbers, added with `szAdd` wherever the source adds
them. `data` is the block `data_` points at; `objectOffsets` holds the slots below
`objectCursor_`, so the cursor is its length.
-/

namespace CUtils

open StateRun ByteMemory

/-- What the build and the platform decide. -/
class Target where
  /-- The library is built with `PARCEL_OBJECT_CHECK`. -/
  objectCheck : Bool
  /-- The largest destination `memcpy_s` accepts. -/
  memMaxLen : Nat

/-- A build with the check, and a `memcpy_s` limited to 2G. -/
@[reducible] def Target.checked : Target where
  objectCheck := true
  memMaxLen := 0x7fffffff

/-- `DEFAULT_CPACITY`, 200K. -/
def defaultCapacity : Nat := 204800

/-- `CAPACITY_THRESHOLD`, 4K. -/
def capacityThreshold : Nat := 4096

/-- `sizeof(parcel_flat_binder_object)`. -/
def flatSize : Nat := 24

/-- `sizeof(binder_size_t)`. -/
def binderSize : Nat := 8

/-- No object is larger than `PTRDIFF_MAX`, so no allocation of more bytes succeeds. -/
def ptrdiffMax : Nat := 2 ^ 63 - 1

/-- What an entry of the log records. -/
inductive AccessKind
  /-- Bytes of the data block stored by a writer; the bound is the size of the block. -/
  | store
  /-- Bytes handed out by a reader; the bound is the size of the data. -/
  | load
  /-- A slot of the offset table stored to; the bound is the number of slots. -/
  | slot
  deriving DecidableEq, Repr

structure Access where
  kind : AccessKind
  pos : Nat
  len : Nat
  bound : Nat
  deriving DecidableEq, Repr

/-- An empty range touches nothing. -/
def Access.InBounds (a : Access) : Prop := a.len = 0 ∨ a.pos + a.len ≤ a.bound

instance (a : Access) : Decidable a.InBounds := inferInstanceAs (Decidable (_ ∨ _))

/-- A block of memory: the allocator that gave it, `none` for memory of the driver, and a number
that no other block has. -/
structure Block where
  owner : Option Nat
  id : Nat
  deriving DecidableEq, Repr

/-- A call of an allocator, with the block it was passed and the block it returned. -/
inductive AllocatorCall
  | alloc (allocator : Option Nat) (new : Option Block)
  | realloc (allocator : Option Nat) (old new : Option Block)
  | dealloc (allocator : Option Nat) (old : Option Block)
  deriving DecidableEq, Repr

structure Blocks where
  /-- The block `data_` points at. -/
  current : Option Block := none
  /-- The calls so far, the last one first. -/
  calls : List AllocatorCall := []

/-- The block the next call returns, if it succeeds. -/
def Blocks.next (b : Blocks) (allocator : Option Nat) : Block := ⟨allocator, b.calls.length⟩

/-- `data_ = allocator->Realloc(data_, n)`, where `ok` says whether the call succeeds. -/
def Blocks.realloc (b : Blocks) (allocator : Option Nat) (ok : Bool) : Blocks :=
  if ok then
    { current := some (b.next allocator)
      calls := .realloc allocator b.current (some (b.next allocator)) :: b.calls }
  else { b with calls := .realloc allocator b.current none :: b.calls }

structure Parcel where
  data : Option Mem := none
  readCursor : Nat := 0
  writeCursor : Nat := 0
  dataSize : Nat := 0
  dataCapacity : Nat := 0
  maxDataCapacity : Nat := defaultCapacity
  objectOffsets : Option (List Nat) := none
  nextObjectIdx : Nat := 0
  objectsCapacity : Nat := 0
  /-- Which allocator object is installed. -/
  allocator : Option Nat
  /-- The objects kept alive, by identity; `none` is a null `sptr`. -/
  objectHolder : List (Option Nat) := []
  writable : Bool := true
  heap : Nat → Option Mem
  log : List Access := []
  held : List (Nat × Nat) := []
  blocks : Blocks := {}

abbrev ParcelM := Prog Parcel

/-- A heap on which every allocation succeeds. -/
def ampleHeap : Nat → Option Mem := fun _ => some fun _ => 0

namespace Parcel

/-- `Parcel::Parcel(Allocator *)`. Without an allocator a default one is created, so there
always is one. -/
def new (allocator : Nat) (heap : Nat → Option Mem) : Parcel :=
  { allocator := some allocator, heap := heap }

/-- The recorded offsets: the slots `[0, objectCursor_)` of the table. -/
def offsets (p : Parcel) : List Nat := p.objectOffsets.getD []

def objectCursor (p : Parcel) : Nat := p.offsets.length

/-- What `data_` points at. -/
def bytes (p : Parcel) : Mem := p.data.getD fun _ => 0

/-- The size of the block behind `data_`. -/
def blockSize (p : Parcel) : Nat := if p.data.isSome then p.dataCapacity else 0

/-- How many bytes of the block are data. -/
def loadBound (p : Parcel) : Nat := if p.data.isSome then p.dataSize else 0

def getWritableBytes (p : Parcel) : Nat :=
  if p.dataCapacity > p.writeCursor then p.dataCapacity - p.writeCursor else 0

def getReadableBytes (p : Parcel) : Nat :=
  if p.dataSize > p.readCursor then p.dataSize - p.readCursor else 0

/-! ## Capacity -/

/-- The doubling loop of `CalcNewCapacity`; 64 rounds exhaust a `size_t`. -/
def doubleLoop : Nat → Nat → Nat → Nat
  | 0, newCapacity, _ => newCapacity
  | fuel + 1, newCapacity, minNewCapacity =>
      if newCapacity < minNewCapacity then doubleLoop fuel (szMul newCapacity 2) minNewCapacity
      else newCapacity

/-- `CalcNewCapacity`; the limit is the only member it reads. -/
def calcNewCapacity (maxDataCapacity minNewCapacity : Nat) : Nat :=
  let threshold := capacityThreshold
  if minNewCapacity = threshold then threshold
  -- If over threshold, step by threshold.
  else if minNewCapacity > threshold then
    let newCapacity := minNewCapacity / threshold * threshold
    if maxDataCapacity > 0 ∧ newCapacity > szSub maxDataCapacity threshold then maxDataCapacity
    else szAdd newCapacity threshold
  -- Not over threshold. Double it.
  else
    let newCapacity := doubleLoop 64 64 minNewCapacity
    if maxDataCapacity > 0 ∧ newCapacity > maxDataCapacity then maxDataCapacity
    else newCapacity

end Parcel

open Parcel

/-- `GetPadSize`: `(size + 3) & ~3` is `size + 3` with its remainder by four dropped. -/
def getPadSize (size : Nat) : Nat := szSub (szAdd size 3 / 4 * 4) size

/-- The next allocation call, for `size` bytes. -/
def alloc (size : Nat) : ParcelM (Option Mem) where
  run p :=
    (if size ≤ ptrdiffMax then p.heap 0 else none, { p with heap := fun i => p.heap (i + 1) })

/-- `allocator_->Realloc(data_, newCapacity)`: the new block starts with what the old one held. -/
def reallocData (newCapacity : Nat) : ParcelM (Option Mem) := do
  let p ← get
  let newData ← alloc newCapacity
  modify fun p => { p with blocks := p.blocks.realloc p.allocator newData.isSome }
  return newData.map fun fresh =>
    match p.data with
    | none => fresh
    | some old => old.keep (min p.dataCapacity newCapacity) fresh

def ensureWritableCapacity (desireCapacity : Nat) : ParcelM Bool := do
  let p ← get
  if !p.writable then return false
  if desireCapacity ≤ p.getWritableBytes then return p.data.isSome
  let minNewCapacity := szAdd desireCapacity p.writeCursor
  let newCapacity := calcNewCapacity p.maxDataCapacity minNewCapacity
  if newCapacity ≤ p.dataCapacity ∨ newCapacity < minNewCapacity then return false
  if p.allocator.isNone then return false
  match ← reallocData newCapacity with
  | some newData =>
      modify fun p => { p with data := some newData, dataCapacity := newCapacity }
      return true
  | none => return false

def setMaxCapacity (maxCapacity : Nat) : ParcelM Bool := do
  let p ← get
  if maxCapacity > p.maxDataCapacity then
    set { p with maxDataCapacity := maxCapacity }
    return true
  return false

def setDataCapacity (newCapacity : Nat) : ParcelM Bool := do
  let p ← get
  if p.allocator.isNone ∨ p.dataSize ≥ newCapacity then return false
  match ← reallocData newCapacity with
  | some newData =>
      modify fun p => { p with data := some newData, dataCapacity := newCapacity }
      return true
  | none => return false

def setDataSize (dataSize : Nat) : ParcelM Bool := do
  let p ← get
  if dataSize > p.dataCapacity then return false
  set { p with dataSize := dataSize }
  return true

/-- Replace the allocator. The data moves to a block of the new allocator that is exactly as
large as the data; `memcpy_s` refuses a destination above its own limit. -/
def setAllocator [Target] (allocator : Option Nat) : ParcelM Bool := do
  let p ← get
  if allocator.isNone ∨ p.allocator = allocator then return false
  if p.data.isSome ∧ p.dataSize > 0 then
    if p.allocator.isNone then return false
    match ← alloc p.dataSize with
    | none =>
        modify fun p =>
          { p with blocks := { p.blocks with calls := .alloc allocator none :: p.blocks.calls } }
        return false
    | some newData =>
        let new := p.blocks.next allocator
        if p.dataSize > Target.memMaxLen then
          modify fun p =>
            { p with
              blocks :=
                { p.blocks with
                  calls := .dealloc allocator new :: .alloc allocator new :: p.blocks.calls } }
          return false
        modify fun p =>
          { p with
            data := some (p.bytes.keep p.dataSize newData)
            dataCapacity := p.dataSize
            allocator := allocator
            blocks :=
              { current := some new
                calls := .dealloc p.allocator p.blocks.current :: .alloc allocator new ::
                  p.blocks.calls } }
        return true
  modify fun p => { p with allocator := allocator }
  return true

def clearObjects : ParcelM Unit :=
  modify fun p =>
    { p with
      objectHolder := []
      nextObjectIdx := 0
      objectOffsets := none
      objectsCapacity := 0
      held := [] }

def flushBuffer : ParcelM Unit := do
  let p ← get
  if p.allocator.isNone then return
  if p.data.isSome then
    modify fun p =>
      { p with
        dataSize := 0, writeCursor := 0, readCursor := 0, dataCapacity := 0, data := none
        blocks :=
          { current := none
            calls := .dealloc p.allocator p.blocks.current :: p.blocks.calls } }
  if p.objectOffsets.isSome then clearObjects

/-- `Parcel::~Parcel()`. -/
def destroyParcel : ParcelM Unit := do
  flushBuffer
  modify fun p => { p with allocator := none }

/-- `ParseFrom`: take over a block filled by the driver. -/
def parseFrom [Target] (data : Option Mem) (size : Nat) : ParcelM Bool := do
  let p ← get
  if p.data.isSome then return false
  set
    { p with
      data := data, dataCapacity := size, dataSize := size, writable := false
      blocks := { p.blocks with current := data.map fun _ => p.blocks.next none } }
  if Target.objectCheck ∧ p.objectOffsets.isSome then clearObjects
  return true

/-! ## Cursors -/

def skipBytes (bytes : Nat) : ParcelM Unit := do
  let p ← get
  if p.getReadableBytes ≥ bytes then
    set { p with readCursor := szAdd p.readCursor bytes }
  else if p.readCursor < p.dataCapacity then
    set { p with readCursor := p.dataCapacity }

def rewindRead (newPosition : Nat) : ParcelM Bool := do
  let p ← get
  if newPosition > p.dataSize then return false
  set { p with readCursor := newPosition, nextObjectIdx := 0 }
  return true

/-- The loop of `RewindWrite`: how many of the first `n` offsets are kept, dropping from the end
those whose object does not lie below `newPosition`. -/
def keptObjects (objects : List Nat) (newPosition : Nat) : Nat → Nat
  | 0 => 0
  | n + 1 =>
      if szAdd (objects.getD n 0) flatSize ≤ newPosition then n + 1
      else keptObjects objects newPosition n

/-- `std::vector::resize` on the list of holders: new entries are null. -/
def resizeHolder (holder : List (Option Nat)) (n : Nat) : List (Option Nat) :=
  holder.take n ++ List.replicate (n - holder.length) none

def rewindWrite [Target] (newPosition : Nat) : ParcelM Bool := do
  let p ← get
  if newPosition > p.dataSize then return false
  set { p with writeCursor := newPosition, dataSize := newPosition }
  if !Target.objectCheck then return true
  if p.objectOffsets.isNone ∨ p.objectCursor = 0 then return true
  if szAdd (p.offsets.getD (p.objectCursor - 1) 0) flatSize > newPosition then
    let objectSize := keptObjects p.offsets newPosition p.objectCursor
    if objectSize = 0 then
      clearObjects
      return true
    match ← alloc (szMul objectSize binderSize) with
    | none => return false
    | some _ =>
        modify fun p =>
          let kept := p.offsets.take objectSize
          { p with
            objectOffsets := some kept
            objectsCapacity := objectSize
            objectHolder := resizeHolder p.objectHolder objectSize
            nextObjectIdx := 0
            held := p.held.filter fun h => h.1 ∈ kept }
        return true
  return true

end CUtils
