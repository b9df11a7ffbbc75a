import CUtils.Parcel.RoundTrip

/-!
# Classes of parcelables

A class derived from `Parcelable` writes its fields one after the other in `Marshalling`, and
`Unmarshalling` reads them in the same order and gives up, with a null pointer, at the first that
cannot be read. `Fields` is such a class by its fields: values, pointers to other parcelables, strong
pointers, and remote objects, so the objects are nested as deep as the classes are.
-/

namespace CUtils

open StateRun ByteMemory Parcel

/-- The kinds of fields that hold a value. -/
inductive Leaf
  | scalar (k : ScalarKind)
  | string
  | string16
  | vector (k : VectorKind)

abbrev Leaf.Elem : Leaf → Type
  | scalar k => k.Elem
  | string => List Char8
  | string16 => List Char16
  | vector k => List k.Elem

/-- The bytes of a remote object. -/
abbrev Flat : Type := { bytes : List UInt8 // bytes.length = flatSize }

/-- A class. -/
inductive Fields
  | nil
  | leaf (l : Leaf) (rest : Fields)
  /-- A pointer, sent with `WriteParcelable`. -/
  | pointer (target rest : Fields)
  /-- A strong pointer that is not null, sent with `WriteStrongParcelable`. -/
  | strong (target rest : Fields)
  /-- A remote object, sent with `WriteParcelable`. -/
  | remote (rest : Fields)

/-- The objects of a class. -/
abbrev Fields.Object : Fields → Type
  | nil => Unit
  | leaf l rest => l.Elem × rest.Object
  | pointer target rest => Option target.Object × rest.Object
  | strong target rest => target.Object × rest.Object
  | remote rest => Flat × rest.Object

/-! ## Writing -/

variable [Target]

def Leaf.writer : (l : Leaf) → l.Elem → Writer
  | scalar k, v => .scalar k v
  | string, v => .string v
  | string16, v => .string16 v
  | vector k, v => .vector k v

/-- An object that is not remote, with its own `Marshalling`. -/
def Parcelable.local (marshalling : ParcelM Bool) : Parcelable where
  id := 0
  asRemote := false
  behavior := 0
  marshalling := marshalling

/-- A remote object that writes its bytes with one call of `WriteBuffer`. -/
def FlatObject.ofBytes (flat : Flat) : FlatObject where
  id := 0
  behavior := 0
  marshalling := (Writer.buffer (some (Mem.ofList flat.1)) flatSize).exec
  flat := flat.1
  length_flat := flat.2
  writes {p} hp hok := by
    obtain ⟨bs, hwrote, hbytes⟩ := (Writer.buffer (some (Mem.ofList flat.1)) flatSize).wrote hp
    have hscript : (Writer.script (.buffer (some (Mem.ofList flat.1)) flatSize)).bytes = flat.1 := by
      have hread := Mem.read_ofList flat.1
      rw [flat.2] at hread
      rw [Writer.script, Option.elim, Script.bytes_block, hread]
      exact List.append_nil _
    rw [hbytes hok, hscript] at hwrote
    exact hwrote

def Fields.marshalling : (c : Fields) → c.Object → ParcelM Bool
  | nil, _ => return true
  | leaf l rest, o => do
      if !(← (l.writer o.1).exec) then return false
      rest.marshalling o.2
  | pointer target rest, o => do
      if !(← writeParcelable (o.1.map fun v => .local (target.marshalling v))) then return false
      rest.marshalling o.2
  | strong target rest, o => do
      if !(← writeStrongParcelable (some (.local (target.marshalling o.1)))) then return false
      rest.marshalling o.2
  | remote rest, o => do
      if !(← writeParcelable (some (FlatObject.ofBytes o.1).parcelable)) then return false
      rest.marshalling o.2

/-! ## Reading -/

def readParcelable {α : Type} (unmarshalling : ParcelM (Option α)) : ParcelM (Option α) := do
  let size ← readInt32
  if size = 0 then return none
  unmarshalling

def readStrongParcelable {α : Type} (unmarshalling : ParcelM (Option α)) : ParcelM (Option α) := do
  let size ← readInt32
  if size = 0 then return none
  unmarshalling

/-- The value of a reader with an out-parameter, if it has succeeded. -/
def checked {α : Type} (m : ParcelM (Bool × α)) : ParcelM (Option α) :=
  (fun r => if r.1 then some r.2 else none) <$> m

def ScalarKind.initial : (k : ScalarKind) → k.Elem
  | bool | boolUnaligned => false
  | int8 | int8Unaligned | uint8 | uint8Unaligned => (0 : BitVec 8)
  | int16 | int16Unaligned | uint16 | uint16Unaligned => (0 : BitVec 16)
  | int32 | uint32 | float => (0 : BitVec 32)
  | int64 | uint64 | double | pointer => (0 : BitVec 64)

/-- The field is read with the reader that reports failure, where there is one. -/
def Leaf.read : (l : Leaf) → ParcelM (Option l.Elem)
  | scalar k =>
      match k.refReader, k.valueReader with
      | some m, _ => checked (m k.initial)
      | none, some m => some <$> m
      | none, none => return none
  | string => checked readStringRef
  | string16 => checked readString16Ref
  | vector k => (fun r => if r.1 then r.2 else none) <$> k.read (some [])

/-- A remote object is restored only where the offset table has one. -/
def unmarshallingFlat : ParcelM (Option Flat) :=
  readObject do
    let buffer ← readBufferWith flatSize false
    return buffer.bind fun bytes => if h : bytes.length = flatSize then some ⟨bytes, h⟩ else none

/-- `m` and then `k`, if both succeed. -/
def both {α β : Type} (m : ParcelM (Option α)) (k : ParcelM (Option β)) : ParcelM (Option (α × β)) := do
  let v ← m
  v.elim (pure none) fun v => (fun w => w.map fun w => (v, w)) <$> k

def Fields.unmarshalling : (c : Fields) → ParcelM (Option c.Object)
  | nil => return some ()
  | leaf l rest => both l.read rest.unmarshalling
  -- a null pointer and an object that cannot be restored are the same to the reader
  | pointer target rest => both (some <$> readParcelable target.unmarshalling) rest.unmarshalling
  | strong target rest => both (readStrongParcelable target.unmarshalling) rest.unmarshalling
  | remote rest => both (readParcelable unmarshallingFlat) rest.unmarshalling

end CUtils
