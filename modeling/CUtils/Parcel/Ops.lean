import CUtils.Parcel.Objects

/-!
# The public operations, and runs of them

* `Writer`, `BasicReader`, `Reader` — the writers and readers of `parcel.h`, member by member.
* `Marshals` — the bodies of a `Marshalling` that only write, read, skip and record: any sequence of
  calls of these public members, each chosen from the results of the earlier ones, with further
  objects nested to any depth. `UserCode`, in `Parcel.UserCode`, has all bodies.
* `Op` — one call of a public operation with its arguments, the objects being such; `Parcel.step`
  performs it and `Parcel.run` performs a list of them.
-/

namespace CUtils

open StateRun ByteMemory Parcel

/-! ## Scalar kinds -/

/-- The scalar types of the interface, those with a padded and an unaligned form twice. -/
inductive ScalarKind
  | bool | boolUnaligned | int8 | int8Unaligned | int16 | int16Unaligned | int32 | int64
  | uint8 | uint8Unaligned | uint16 | uint16Unaligned | uint32 | uint64 | float | double | pointer
  deriving DecidableEq, Repr

abbrev ScalarKind.Elem : ScalarKind → Type
  | bool | boolUnaligned => Bool
  | int8 | int8Unaligned | uint8 | uint8Unaligned => BitVec 8
  | int16 | int16Unaligned | uint16 | uint16Unaligned => BitVec 16
  | int32 | uint32 | float => BitVec 32
  | int64 | uint64 | double | pointer => BitVec 64

def ScalarKind.write : (k : ScalarKind) → k.Elem → ParcelM Bool
  | bool => writeBool
  | boolUnaligned => writeBoolUnaligned
  | int8 => writeInt8
  | int8Unaligned => writeInt8Unaligned
  | int16 => writeInt16
  | int16Unaligned => writeInt16Unaligned
  | int32 => writeInt32
  | int64 => writeInt64
  | uint8 => writeUint8
  | uint8Unaligned => writeUint8Unaligned
  | uint16 => writeUint16
  | uint16Unaligned => writeUint16Unaligned
  | uint32 => writeUint32
  | uint64 => writeUint64
  | float => writeFloat
  | double => writeDouble
  | pointer => writePointer

section Kinds

variable [Target]

/-- The reader that returns the value, where there is one. -/
def ScalarKind.valueReader : (k : ScalarKind) → Option (ParcelM k.Elem)
  | bool => some readBool
  | boolUnaligned => some readBoolUnaligned
  | int8 => some readInt8
  | int16 => some readInt16
  | int32 => some readInt32
  | int64 => some readInt64
  | uint8 => some readUint8
  | uint16 => some readUint16
  | uint32 => some readUint32
  | uint64 => some readUint64
  | float => some readFloat
  | double => some readDouble
  | pointer => some readPointer
  | int8Unaligned | int16Unaligned | uint8Unaligned | uint16Unaligned => none

/-- The reader with an out-parameter, where there is one. -/
def ScalarKind.refReader : (k : ScalarKind) → Option (k.Elem → ParcelM (Bool × k.Elem))
  | bool => some readBoolRef
  | int8 => some readInt8Ref
  | int8Unaligned => some readInt8Unaligned
  | int16 => some readInt16Ref
  | int16Unaligned => some readInt16Unaligned
  | int32 => some readInt32Ref
  | int64 => some readInt64Ref
  | uint8 => some readUint8Ref
  | uint8Unaligned => some readUint8Unaligned
  | uint16 => some readUint16Ref
  | uint16Unaligned => some readUint16Unaligned
  | uint32 => some readUint32Ref
  | uint64 => some readUint64Ref
  | float => some readFloatRef
  | double => some readDoubleRef
  | boolUnaligned | pointer => none

end Kinds

/-! ## Vector kinds -/

inductive VectorKind
  | bool | int8 | int16 | int32 | int64 | uint8 | uint16 | uint32 | uint64 | float | double
  | string | string16
  deriving DecidableEq, Repr

abbrev VectorKind.Elem : VectorKind → Type
  | bool => Bool
  | int8 | uint8 => BitVec 8
  | int16 | uint16 => BitVec 16
  | int32 | uint32 | float => BitVec 32
  | int64 | uint64 | double => BitVec 64
  | string => List Char8
  | string16 => List Char16

section Kinds

variable [Target]

def VectorKind.write : (k : VectorKind) → List k.Elem → ParcelM Bool
  | bool => writeBoolVector
  | int8 => writeInt8Vector
  | int16 => writeInt16Vector
  | int32 => writeInt32Vector
  | int64 => writeInt64Vector
  | uint8 => writeUInt8Vector
  | uint16 => writeUInt16Vector
  | uint32 => writeUInt32Vector
  | uint64 => writeUInt64Vector
  | float => writeFloatVector
  | double => writeDoubleVector
  | string => writeStringVector
  | string16 => writeString16Vector

def VectorKind.read : (k : VectorKind) → Option (List k.Elem) →
    ParcelM (Bool × Option (List k.Elem))
  | bool => readBoolVector
  | int8 => readInt8Vector
  | int16 => readInt16Vector
  | int32 => readInt32Vector
  | int64 => readInt64Vector
  | uint8 => readUInt8Vector
  | uint16 => readUInt16Vector
  | uint32 => readUInt32Vector
  | uint64 => readUInt64Vector
  | float => readFloatVector
  | double => readDoubleVector
  | string => readStringVector
  | string16 => readString16Vector

/-! ## Writers and readers -/

/-- The public writers, other than those of objects, with their arguments. -/
inductive Writer
  | scalar (k : ScalarKind) (v : k.Elem)
  | buffer (data : Option Mem) (size : Nat)
  | unpadBuffer (data : Option Mem) (size : Nat)
  | bufferAddTerminator (data : Option Mem) (size typeSize : Nat)
  | cString (value : Option (List Char8))
  | string (value : List Char8)
  | string16 (value : List Char16)
  | string8WithLength (value : Option (List Char8))
  | string16WithLength (value : Option (List Char16))
  | vector (k : VectorKind) (val : List k.Elem)

def Writer.exec : Writer → ParcelM Bool
  | scalar k v => k.write v
  | buffer data size => writeBuffer data size
  | unpadBuffer data size => writeUnpadBuffer data size
  | bufferAddTerminator data size typeSize => writeBufferAddTerminator data size typeSize
  | cString value => writeCString value
  | string value => writeString value
  | string16 value => writeString16 value
  | string8WithLength value => writeString8WithLength value
  | string16WithLength value => writeString16WithLength value
  | vector k val => k.write val

/-- The readers that check for objects. -/
inductive BasicReader : {α : Type} → ParcelM α → Prop
  | scalarValue {k : ScalarKind} {m : ParcelM k.Elem} (h : k.valueReader = some m) : BasicReader m
  | scalarRef {k : ScalarKind} {m : k.Elem → ParcelM (Bool × k.Elem)} (h : k.refReader = some m)
      (value : k.Elem) : BasicReader (m value)
  | buffer (length : Nat) : BasicReader (readBuffer length)
  | unpadBuffer (length : Nat) : BasicReader (readUnpadBuffer length)
  | cString : BasicReader readCString
  | string : BasicReader readString
  | stringRef : BasicReader readStringRef
  | string16 : BasicReader readString16
  | string16Ref : BasicReader readString16Ref
  | string8WithLength (len : BitVec 32) : BasicReader (readString8WithLength len)
  | string16WithLength (len : BitVec 32) : BasicReader (readString16WithLength len)
  | vector (k : VectorKind) (val : Option (List k.Elem)) : BasicReader (k.read val)

/-- All public readers. -/
inductive Reader : {α : Type} → ParcelM α → Prop
  | basic {α : Type} {m : ParcelM α} (h : BasicReader m) : Reader m
  | bufferWith (length : Nat) (isValidate : Bool) : Reader (readBufferWith length isValidate)
  | checkOffsets : Reader checkOffsets
  | object (length : Nat) : Reader (readObject (readBufferWith length false))

/-! ## Bodies of `Marshalling` -/

/-- The body only writes, reads, skips and records. -/
inductive Marshals : ParcelM Bool → Prop
  | ret (b : Bool) : Marshals (pure b)
  | write (w : Writer) {k : Bool → ParcelM Bool} (hk : ∀ b, Marshals (k b)) :
      Marshals (w.exec >>= k)
  | read {α : Type} {m : ParcelM α} {k : α → ParcelM Bool} (hm : Reader m)
      (hk : ∀ a, Marshals (k a)) : Marshals (m >>= k)
  | skipBytes (n : Nat) {k : Unit → ParcelM Bool} (hk : Marshals (k ())) :
      Marshals (skipBytes n >>= k)
  | rewindRead (n : Nat) {k : Bool → ParcelM Bool} (hk : ∀ b, Marshals (k b)) :
      Marshals (rewindRead n >>= k)
  | injectOffsets (offsets : Option (List Nat)) {k : Unit → ParcelM Bool} (hk : Marshals (k ())) :
      Marshals (injectOffsets offsets >>= k)
  | writeRemoteObject (o : Option Parcelable) {k : Bool → ParcelM Bool}
      (ho : ∀ x ∈ o, Marshals x.marshalling) (hk : ∀ b, Marshals (k b)) :
      Marshals (writeRemoteObject o >>= k)
  | writeParcelable (o : Option Parcelable) {k : Bool → ParcelM Bool}
      (ho : ∀ x ∈ o, Marshals x.marshalling) (hk : ∀ b, Marshals (k b)) :
      Marshals (writeParcelable o >>= k)
  | writeStrongParcelable (o : Option Parcelable) {k : Bool → ParcelM Bool}
      (ho : ∀ x ∈ o, Marshals x.marshalling) (hk : ∀ b, Marshals (k b)) :
      Marshals (writeStrongParcelable o >>= k)

/-- A possibly null object whose `Marshalling` only writes, reads, skips and records. -/
structure Object where
  ptr : Option Parcelable
  marshals : ∀ x ∈ ptr, Marshals x.marshalling

/-- The object as `WriteStrongParcelable` passes it on. -/
def Object.strong (o : Object) : Object where
  ptr := o.ptr.map (·.setBehavior holdObject)
  marshals x hx := by
    obtain ⟨y, hy, rfl⟩ := Option.map_eq_some_iff.1 hx
    exact o.marshals y hy

/-- A remote object whose `Marshalling` writes one zeroed flat object. -/
def Object.flat (id : Nat) (behavior : BitVec 8) : Object where
  ptr := some
    { id := id
      asRemote := true
      behavior := behavior
      marshalling := (Writer.buffer (some fun _ => 0) flatSize).exec >>= pure }
  marshals x hx := by
    rw [← Option.some.inj hx]
    exact Marshals.write _ fun b => Marshals.ret b

/-! ## Operations and runs -/

inductive Op : Type 1
  | write (w : Writer)
  | read {α : Type} (m : ParcelM α) (h : Reader m)
  | writeRemoteObject (o : Object)
  | writeParcelable (o : Object)
  | writeStrongParcelable (o : Object)
  | injectOffsets (offsets : Option (List Nat))
  | setMaxCapacity (maxCapacity : UInt64)
  | setDataCapacity (newCapacity : Nat)
  | setDataSize (dataSize : Nat)
  | setAllocator (allocator : Option Nat)
  | skipBytes (bytes : Nat)
  | rewindRead (newPosition : Nat)
  | rewindWrite (newPosition : Nat)
  | flushBuffer
  /-- The caller passes a block of the size it states. -/
  | parseFrom (data : Option Mem) (size : Nat) (h : size ≤ ptrdiffMax)
      (hnull : data = none → size = 0)

/-- Perform the call and drop its result. -/
def Op.exec : Op → ParcelM Unit
  | write w => do let _ ← w.exec
  | read m _ => do let _ ← m
  | writeRemoteObject o => do let _ ← CUtils.writeRemoteObject o.ptr
  | writeParcelable o => do let _ ← CUtils.writeParcelable o.ptr
  | writeStrongParcelable o => do let _ ← CUtils.writeStrongParcelable o.ptr
  | injectOffsets offsets => CUtils.injectOffsets offsets
  | setMaxCapacity n => do let _ ← CUtils.setMaxCapacity n.toNat
  | setDataCapacity n => do let _ ← CUtils.setDataCapacity n
  | setDataSize n => do let _ ← CUtils.setDataSize n
  | setAllocator a => do let _ ← CUtils.setAllocator a
  | skipBytes n => CUtils.skipBytes n
  | rewindRead n => do let _ ← CUtils.rewindRead n
  | rewindWrite n => do let _ ← CUtils.rewindWrite n
  | flushBuffer => CUtils.flushBuffer
  | parseFrom data size _ _ => do let _ ← CUtils.parseFrom data size

def Parcel.step (p : Parcel) (op : Op) : Parcel := (op.exec.run p).2

def Parcel.run (p : Parcel) (ops : List Op) : Parcel := ops.foldl Parcel.step p

end Kinds

end CUtils
