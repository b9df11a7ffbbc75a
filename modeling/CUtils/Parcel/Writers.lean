import CUtils.Parcel.State

/-!
# The writers

Every writer asks `ensureWritableCapacity` for room and then stores: a scalar in place, a block
through `memcpy_s` followed by its padding, a string as a length, its characters and a
terminator, a vector as a count, its elements and one padding for all of them.

A pointer argument is the memory it points at, `none` when it is null. Signed integers are
`BitVec`s; the wire only sees their bits. Floating-point values are their bit patterns.
-/

namespace CUtils

open StateRun ByteMemory Parcel

variable [Target]

/-! ## Storing -/

/-- Store `n` bytes of `src` at position `pos` of the data block. -/
def storeBytes (pos n : Nat) (src : Mem) : ParcelM Unit :=
  modify fun p =>
    { p with
      data := p.data.map fun m => m.write pos n src
      log := ⟨.store, pos, n, p.blockSize⟩ :: p.log }

/-- The two additions every writer ends with. -/
def advanceWrite (n : Nat) : ParcelM Unit :=
  modify fun p =>
    { p with writeCursor := szAdd p.writeCursor n, dataSize := szAdd p.dataSize n }

/-- `memcpy_s(data_ + writeCursor_, GetWritableBytes(), data, size)`. It refuses a null, an empty
and an over-long destination, and wipes the destination when the source does not fit. -/
def writeDataBytes (data : Mem) (size : Nat) : ParcelM Bool := do
  let p ← get
  let writableBytes := p.getWritableBytes
  if p.data.isNone ∨ writableBytes = 0 ∨ writableBytes > Target.memMaxLen then return false
  if size > writableBytes then
    storeBytes p.writeCursor writableBytes fun _ => 0
    return false
  storeBytes p.writeCursor size data
  advanceWrite size
  return true

/-- The masks of `WritePadBytes`, for a little-endian target. -/
def padMask : List Nat := [0xFFFFFFFF, 0x00ffffff, 0x0000ffff, 0x000000ff]

/-- Clear the last `padSize` bytes of the word that ends where the padding ends. -/
def writePadBytes (padSize : Nat) : ParcelM Unit := do
  let p ← get
  let pos := szSub (szAdd p.writeCursor padSize) 4
  let word := leNat (p.bytes.read pos 4)
  storeBytes pos 4 (Mem.ofList (leBytes 4 (word &&& padMask.getD padSize 0)))
  advanceWrite padSize

/-! ## Buffers -/

def writeBuffer (data : Option Mem) (size : Nat) : ParcelM Bool := do
  match data with
  | none => return false
  | some data =>
      if size = 0 then return false
      let padSize := getPadSize size
      let desireCapacity := szAdd size padSize
      -- in case of desireCapacity overflow
      if desireCapacity < size ∨ desireCapacity < padSize then return false
      if !(← ensureWritableCapacity desireCapacity) then return false
      if !(← writeDataBytes data size) then return false
      writePadBytes padSize
      return true

def writeBufferAddTerminator (data : Option Mem) (size typeSize : Nat) : ParcelM Bool := do
  match data with
  | none => return false
  | some data =>
      if typeSize = 0 ∨ size < typeSize then return false
      let padSize := getPadSize size
      let desireCapacity := szAdd size padSize
      -- in case of desireCapacity overflow
      if desireCapacity < size ∨ desireCapacity < padSize then return false
      if !(← ensureWritableCapacity desireCapacity) then return false
      if !(← writeDataBytes data (size - typeSize)) then return false
      -- Reserved for 32 bits
      if typeSize > 4 then return false
      if !(← writeDataBytes (fun _ => 0) typeSize) then return false
      writePadBytes padSize
      return true

def writeUnpadBuffer (data : Option Mem) (size : Nat) : ParcelM Bool := writeBuffer data size

/-! ## Scalars -/

/-- `Parcel::Write<T>`. -/
def write {α : Type} [Scalar α] (value : α) : ParcelM Bool := do
  let desireCapacity := Scalar.width α
  if !(← ensureWritableCapacity desireCapacity) then return false
  storeBytes (← get).writeCursor desireCapacity (Mem.ofList (Scalar.encode value))
  advanceWrite desireCapacity
  return true

def boolWord (value : Bool) : BitVec 32 := if value then 1 else 0

def writeBool (value : Bool) : ParcelM Bool := write (boolWord value)
def writeBoolUnaligned (value : Bool) : ParcelM Bool := write value
def writeInt8 (value : BitVec 8) : ParcelM Bool := write (value.signExtend 32)
def writeInt8Unaligned (value : BitVec 8) : ParcelM Bool := write value
def writeInt16 (value : BitVec 16) : ParcelM Bool := write (value.signExtend 32)
def writeInt16Unaligned (value : BitVec 16) : ParcelM Bool := write value
def writeInt32 (value : BitVec 32) : ParcelM Bool := write value
def writeInt64 (value : BitVec 64) : ParcelM Bool := write value
def writeUint8 (value : BitVec 8) : ParcelM Bool := write (value.setWidth 32)
def writeUint8Unaligned (value : BitVec 8) : ParcelM Bool := write value
def writeUint16 (value : BitVec 16) : ParcelM Bool := write (value.setWidth 32)
def writeUint16Unaligned (value : BitVec 16) : ParcelM Bool := write value
def writeUint32 (value : BitVec 32) : ParcelM Bool := write value
def writeUint64 (value : BitVec 64) : ParcelM Bool := write value
def writeFloat (value : BitVec 32) : ParcelM Bool := write value
def writeDouble (value : BitVec 64) : ParcelM Bool := write value
def writePointer (value : BitVec 64) : ParcelM Bool := write value

/-! ## Strings -/

abbrev Char8 := UInt8
abbrev Char16 := BitVec 16

/-- The bytes of a sequence of characters. -/
def charBytes {α : Type} [Scalar α] (value : List α) : List UInt8 := value.flatMap Scalar.encode

/-- `strlen`. -/
def strlen (value : List Char8) : Nat := (value.takeWhile (· != 0)).length

/-- `WriteCString`: the bytes up to the first NUL, and the NUL. -/
def writeCString (value : Option (List Char8)) : ParcelM Bool := do
  match value with
  | none => return false
  | some value =>
      let dataLength := BitVec.ofNat 32 (strlen value)
      if dataLength.toInt < 0 ∨ dataLength.toInt ≥ int32Max then return false
      writeBuffer (some (Mem.ofList value)) (dataLength.toNat + 1)

/-- The common end of the string writers: the length, then the characters and a terminator of
`typeSize` bytes. -/
def writeLengthAndChars (data : Mem) (dataLength : BitVec 32) (typeSize : Nat) : ParcelM Bool := do
  if !(← write dataLength) then return false
  writeBufferAddTerminator (some data) ((dataLength.toNat + 1) * typeSize) typeSize

def writeString (value : List Char8) : ParcelM Bool := do
  let dataLength := BitVec.ofNat 32 value.length
  if dataLength.toInt < 0 ∨ dataLength.toInt ≥ int32Max then return false
  writeLengthAndChars (Mem.ofList value) dataLength 1

def writeString16 (value : List Char16) : ParcelM Bool := do
  let dataLength := BitVec.ofNat 32 value.length
  if dataLength.toInt < 0 ∨ dataLength.toInt > int32Max / 2 - 1 then return false
  writeLengthAndChars (Mem.ofList (charBytes value)) dataLength 2

/-- A null pointer is written as the length `-1`. -/
def writeString16WithLength (value : Option (List Char16)) : ParcelM Bool := do
  match value with
  | none => writeInt32 (-1)
  | some value =>
      let dataLength := BitVec.ofNat 32 value.length
      if dataLength.toInt < 0 ∨ dataLength.toInt > int32Max / 2 - 1 then return false
      writeLengthAndChars (Mem.ofList (charBytes value)) dataLength 2

def writeString8WithLength (value : Option (List Char8)) : ParcelM Bool := do
  match value with
  | none => writeInt32 (-1)
  | some value =>
      let dataLength := BitVec.ofNat 32 value.length
      if dataLength.toInt < 0 ∨ dataLength.toInt ≥ int32Max then return false
      writeLengthAndChars (Mem.ofList value) dataLength 1

/-! ## Vectors -/

/-- `WriteVector` with the element writer `writeElem`; `size` is `sizeof(T1)`. -/
def writeVector {α : Type} (size : Nat) (writeElem : α → ParcelM Bool) (val : List α) :
    ParcelM Bool := do
  if val.length > 2147483647 then return false
  if !(← writeInt32 (BitVec.ofNat 32 val.length)) then return false
  if !(← val.allM writeElem) then return false
  let padSize := getPadSize (szMul val.length size)
  if !(← ensureWritableCapacity padSize) then return false
  writePadBytes padSize
  return true

/-- `WriteFixedAlignVector<Type>` differs in the size the padding is computed from, that of
`Type`. -/
def writeFixedAlignVector {α : Type} (size : Nat) (specialWrite : α → ParcelM Bool)
    (originVal : List α) : ParcelM Bool :=
  writeVector size specialWrite originVal

/-- `sizeof(std::string)` and `sizeof(std::u16string)`. -/
def sizeofString : Nat := 24

def writeBoolVector (val : List Bool) : ParcelM Bool := writeFixedAlignVector 4 writeBool val
def writeInt8Vector (val : List (BitVec 8)) : ParcelM Bool := writeVector 1 writeInt8Unaligned val
def writeInt16Vector (val : List (BitVec 16)) : ParcelM Bool :=
  writeFixedAlignVector 4 writeInt16 val
def writeInt32Vector (val : List (BitVec 32)) : ParcelM Bool := writeVector 4 writeInt32 val
def writeInt64Vector (val : List (BitVec 64)) : ParcelM Bool := writeVector 8 writeInt64 val
def writeUInt8Vector (val : List (BitVec 8)) : ParcelM Bool := writeVector 1 writeUint8Unaligned val
def writeUInt16Vector (val : List (BitVec 16)) : ParcelM Bool :=
  writeVector 2 writeUint16Unaligned val
def writeUInt32Vector (val : List (BitVec 32)) : ParcelM Bool := writeVector 4 writeUint32 val
def writeUInt64Vector (val : List (BitVec 64)) : ParcelM Bool := writeVector 8 writeUint64 val
def writeFloatVector (val : List (BitVec 32)) : ParcelM Bool := writeVector 4 writeFloat val
def writeDoubleVector (val : List (BitVec 64)) : ParcelM Bool := writeVector 8 writeDouble val
def writeStringVector (val : List (List Char8)) : ParcelM Bool :=
  writeVector sizeofString writeString val
def writeString16Vector (val : List (List Char16)) : ParcelM Bool :=
  writeVector sizeofString writeString16 val

end CUtils
