import CUtils.Parcel.Effects
import Mathlib.Tactic.Simps.Basic

/-!
# The room a writer finds

Whether a write succeeds depends on few things: where the write cursor stands, how large the
block is and may become, and which allocations succeed. `Room` holds these and nothing else, and
`Room.ensure` decides a request on it. `ensureWritableCapacity_room` says that the parcel
decides every request as its room does, so a question about a sequence of writes becomes a
question about a sequence of `Need`s.
-/

namespace CUtils

open StateRun ByteMemory Parcel

/-- What decides whether a request for room is granted. -/
structure Room where
  cursor : Nat
  capacity : Nat
  maxCapacity : Nat
  allocator : Bool
  writable : Bool
  /-- There is a block. -/
  present : Bool
  /-- Which of the allocations to come succeed. -/
  heap : Nat → Bool

@[simps] def Parcel.room (p : Parcel) : Room where
  cursor := p.writeCursor
  capacity := p.dataCapacity
  maxCapacity := p.maxDataCapacity
  allocator := p.allocator.isSome
  writable := p.writable
  present := p.data.isSome
  heap i := (p.heap i).isSome

def Room.free (r : Room) : Nat := if r.capacity > r.cursor then r.capacity - r.cursor else 0

/-- Grant or refuse `n` bytes. -/
def Room.ensure (r : Room) (n : Nat) : Bool × Room :=
  if r.writable = false then (false, r)
  else if n ≤ r.free then (r.present, r)
  else
    let newCapacity := calcNewCapacity r.maxCapacity (szAdd n r.cursor)
    if newCapacity ≤ r.capacity ∨ newCapacity < szAdd n r.cursor ∨ r.allocator = false then
      (false, r)
    else if newCapacity ≤ ptrdiffMax ∧ r.heap 0 = true then
      (true, { r with capacity := newCapacity, present := true, heap := fun i => r.heap (i + 1) })
    else (false, { r with heap := fun i => r.heap (i + 1) })

theorem free_room (p : Parcel) : p.room.free = p.getWritableBytes := rfl

/-- The parcel grants a request exactly when its room does, and is left with the same room. -/
theorem ensureWritableCapacity_room (p : Parcel) (n : Nat) :
    (((ensureWritableCapacity n).run p).1, ((ensureWritableCapacity n).run p).2.room) =
      p.room.ensure n := by
  have hcapacity : calcNewCapacity p.room.maxCapacity (szAdd n p.room.cursor) = p.newCapacity n := rfl
  have hdeclines : p.newCapacity n ≤ p.room.capacity ∨ p.newCapacity n < szAdd n p.room.cursor ∨
      p.room.allocator = false ↔ p.Declines n := by
    rw [Parcel.Declines, room_allocator, Option.isSome_eq_false_iff]
    rfl
  have hgrants : p.newCapacity n ≤ ptrdiffMax ∧ p.room.heap 0 = true ↔
      (p.grant (p.newCapacity n)).isSome = true := by
    rw [Parcel.grant]
    split <;> simp_all
  simp only [Room.ensure, run_ensureWritableCapacity, free_room, hcapacity, hdeclines, hgrants,
    room_writable]
  split
  · rfl
  · split
    · rfl
    · split
      · rfl
      · -- the allocation is made
        cases p.grant (p.newCapacity n) with
        | none => rfl
        | some fresh => rfl

variable [Target]

/-- What `memcpy_s` asks of the room when it copies `k` bytes. -/
def Room.copies (r : Room) (k : Nat) : Bool :=
  r.free ≠ 0 ∧ r.free ≤ Target.memMaxLen ∧ k ≤ r.free

/-- One request of a writer. -/
inductive Need
  /-- The arguments are refused, whatever room there is. -/
  | refused
  /-- `request` bytes are asked for and `size` are appended; `copied` of them, when given, go
  through `memcpy_s`. -/
  | room (request : Nat) (copied : Option Nat) (size : Nat)
  deriving DecidableEq, Repr

/-- The room left when the need is met, `none` when it is not. -/
def Room.take (r : Room) : Need → Option Room
  | .refused => none
  | .room request copied size =>
      let e := r.ensure request
      if e.1 = true ∧ copied.all e.2.copies = true then
        some { e.2 with cursor := e.2.cursor + size }
      else none

/-- All of the needs are met, one after the other. -/
def Room.fits (r : Room) : List Need → Bool
  | [] => true
  | n :: ns =>
      match r.take n with
      | none => false
      | some r' => r'.fits ns

theorem Room.fits_cons (r : Room) (n : Need) (ns : List Need) :
    r.fits (n :: ns) = true ↔ ∃ r', r.take n = some r' ∧ r'.fits ns = true := by
  rw [Room.fits]
  cases r.take n with
  | none => simp
  | some r' => simp

end CUtils
