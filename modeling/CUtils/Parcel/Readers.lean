import CUtils.Parcel.Writers

/-!
# The readers

A reader hands out bytes of `[readCursor_, dataSize_)` and moves the cursor. With
`PARCEL_OBJECT_CHECK` every basic reader first asks `validateReadData` whether the range meets a
recorded object; the answer is computed from a cached index into the offset table.

Where the source has a value-returning reader and one with an out-parameter, both are modelled;
an out-parameter is an argument with its old value and a result with its new one.
-/

namespace CUtils

open StateRun ByteMemory Parcel

variable [Target]

/-! ## The object check -/

/-- The loop of `ValidateReadData` over the offsets from index `nextObj` on: `none` as soon as an
object below `upperBound` has not ended at `readPos`, otherwise the index of the first object
that starts at or above `upperBound`. -/
def scanObjects (readPos upperBound : Nat) : List Nat → Nat → Option Nat
  | [], nextObj => some nextObj
  | o :: os, nextObj =>
      if upperBound > o then
        if readPos < szAdd o flatSize then none else scanObjects readPos upperBound os (nextObj + 1)
      else some nextObj

def validateReadData (upperBound : Nat) : ParcelM Bool := do
  if !Target.objectCheck then return true
  let p ← get
  if p.objectOffsets.isNone ∨ p.objectCursor = 0 then return true
  match scanObjects p.readCursor upperBound (p.offsets.drop p.nextObjectIdx) p.nextObjectIdx with
  | none => return false
  | some nextObj =>
      set { p with nextObjectIdx := nextObj }
      return true

/-- Hand out the `n` bytes at position `pos`. -/
def loadBytes (pos n : Nat) : ParcelM (List UInt8) where
  run p := (p.bytes.read pos n, { p with log := ⟨.load, pos, n, p.loadBound⟩ :: p.log })

/-- `readCursor_ += n`. -/
def advanceRead (n : Nat) : ParcelM Unit :=
  modify fun p => { p with readCursor := szAdd p.readCursor n }

/-- `CheckOffsets`: an object was recorded at the read cursor. -/
def checkOffsets : ParcelM Bool := do
  let p ← get
  if szAdd p.readCursor flatSize > p.dataSize then return false
  return p.offsets.contains p.readCursor

/-! ## Scalars -/

/-- `Parcel::Read<T>(T &)`. -/
def read {α : Type} [Scalar α] (value : α) : ParcelM (Bool × α) := do
  let p ← get
  let desireCapacity := Scalar.width α
  if desireCapacity ≤ p.getReadableBytes then
    if !(← validateReadData (szAdd p.readCursor desireCapacity)) then
      advanceRead desireCapacity
      return (false, value)
    let data ← loadBytes p.readCursor desireCapacity
    advanceRead desireCapacity
    return (true, Scalar.decode data)
  return (false, value)

/-- `T Parcel::Read<T>()`: a failure is reported as zero. -/
def readValue {α : Type} [Scalar α] : ParcelM α := do
  let (ok, lvalue) ← read (Scalar.zero : α)
  return if ok then lvalue else Scalar.zero

/-- `ReadPadded<T>`: a 32-bit word, cast to `T`. -/
def readPadded {α : Type} (cast : BitVec 32 → α) (value : α) : ParcelM (Bool × α) := do
  let (result, temp) ← read (0 : BitVec 32)
  return (result, if result then cast temp else value)

def readBool : ParcelM Bool := (· != 0) <$> (readValue : ParcelM (BitVec 32))
def readBoolUnaligned : ParcelM Bool := readValue
def readInt8 : ParcelM (BitVec 8) := BitVec.setWidth 8 <$> (readValue : ParcelM (BitVec 32))
def readInt16 : ParcelM (BitVec 16) := BitVec.setWidth 16 <$> (readValue : ParcelM (BitVec 32))
def readInt32 : ParcelM (BitVec 32) := readValue
def readInt64 : ParcelM (BitVec 64) := readValue
def readUint8 : ParcelM (BitVec 8) := BitVec.setWidth 8 <$> (readValue : ParcelM (BitVec 32))
def readUint16 : ParcelM (BitVec 16) := BitVec.setWidth 16 <$> (readValue : ParcelM (BitVec 32))
def readUint32 : ParcelM (BitVec 32) := readValue
def readUint64 : ParcelM (BitVec 64) := readValue
def readFloat : ParcelM (BitVec 32) := readValue
def readDouble : ParcelM (BitVec 64) := readValue
def readPointer : ParcelM (BitVec 64) := readValue

def readBoolRef (value : Bool) : ParcelM (Bool × Bool) := readPadded (· != 0) value
def readInt8Ref (value : BitVec 8) : ParcelM (Bool × BitVec 8) := readPadded (·.setWidth 8) value
def readInt8Unaligned (value : BitVec 8) : ParcelM (Bool × BitVec 8) := read value
def readInt16Ref (value : BitVec 16) : ParcelM (Bool × BitVec 16) :=
  readPadded (·.setWidth 16) value
def readInt16Unaligned (value : BitVec 16) : ParcelM (Bool × BitVec 16) := read value
def readInt32Ref (value : BitVec 32) : ParcelM (Bool × BitVec 32) := read value
def readInt64Ref (value : BitVec 64) : ParcelM (Bool × BitVec 64) := read value
def readUint8Ref (value : BitVec 8) : ParcelM (Bool × BitVec 8) := readPadded (·.setWidth 8) value
def readUint8Unaligned (value : BitVec 8) : ParcelM (Bool × BitVec 8) := read value
def readUint16Ref (value : BitVec 16) : ParcelM (Bool × BitVec 16) :=
  readPadded (·.setWidth 16) value
def readUint16Unaligned (value : BitVec 16) : ParcelM (Bool × BitVec 16) := read value
def readUint32Ref (value : BitVec 32) : ParcelM (Bool × BitVec 32) := read value
def readUint64Ref (value : BitVec 64) : ParcelM (Bool × BitVec 64) := read value
def readFloatRef (value : BitVec 32) : ParcelM (Bool × BitVec 32) := read value
def readDoubleRef (value : BitVec 64) : ParcelM (Bool × BitVec 64) := read value

/-! ## Buffers

A reader that returns a pointer is modelled as returning the bytes the caller may read through
it, `none` for a null pointer. -/

/-- The pointer `data_ + pos`, as the `n` bytes behind it. -/
def handOut (pos n : Nat) : ParcelM (Option (List UInt8)) := do
  let p ← get
  let buffer ← loadBytes pos n
  return if p.data.isSome then some buffer else none

/-- `ReadBuffer(length, isValidate)`. -/
def readBufferWith (length : Nat) (isValidate : Bool) : ParcelM (Option (List UInt8)) := do
  let p ← get
  if p.getReadableBytes ≥ length then
    if isValidate then
      if !(← validateReadData (szAdd p.readCursor length)) then return none
    let buffer ← handOut p.readCursor length
    advanceRead length
    return buffer
  return none

def readBuffer (length : Nat) : ParcelM (Option (List UInt8)) := readBufferWith length true

/-- `BasicReadBuffer`: a rejected range is skipped, and without `PARCEL_OBJECT_CHECK` nothing is
read. -/
def basicReadBuffer (length : Nat) : ParcelM (Option (List UInt8)) := do
  if !Target.objectCheck then return none
  let p ← get
  if p.getReadableBytes ≥ length then
    if !(← validateReadData (szAdd p.readCursor length)) then
      advanceRead length
      return none
    let buffer ← handOut p.readCursor length
    advanceRead length
    return buffer
  return none

def readUnpadBuffer (length : Nat) : ParcelM (Option (List UInt8)) := do
  let p ← get
  if p.getReadableBytes ≥ length then
    if !(← validateReadData (szAdd p.readCursor length)) then return none
    let buffer ← handOut p.readCursor length
    advanceRead length
    skipBytes (getPadSize length)
    return buffer
  return none

/-! ## Strings -/

/-- `ReadCString`: up to the first NUL among the readable bytes. -/
def readCString : ParcelM (Option (List Char8)) := do
  let p ← get
  let avail := p.getReadableBytes
  match (p.bytes.read p.readCursor avail).findIdx? (· == 0) with
  | some dataLength =>
      if !(← validateReadData (szAdd (szAdd p.readCursor dataLength) 1)) then return none
      let cstr ← handOut p.readCursor (dataLength + 1)
      advanceRead (dataLength + 1)
      skipBytes (getPadSize (dataLength + 1))
      return cstr.map (·.take dataLength)
  | none => return none

/-- The characters in the first `n` units of a buffer. -/
def chars {α : Type} [Scalar α] (n : Nat) (buffer : List UInt8) : List α :=
  (List.range n).map fun i =>
    Scalar.decode ((buffer.drop (i * Scalar.width α)).take (Scalar.width α))

/-- The characters of a string of `dataLength` characters and its terminator, `none` when they
are not all there. The comparison `readCapacity > dataLength` is in the 16-bit readers only; for
8-bit characters it is true. -/
def readCharBody {α : Type} [Scalar α] [DecidableEq α] (dataLength : Nat) :
    ParcelM (Option (List α)) := do
  let readCapacity := szMul (szAdd dataLength 1) (Scalar.width α)
  if ¬ (readCapacity > dataLength ∧ readCapacity ≤ (← get).getReadableBytes) then return none
  match ← (if Target.objectCheck then basicReadBuffer readCapacity
      else readBuffer readCapacity) with
  | none => return none
  | some str =>
      skipBytes (getPadSize readCapacity)
      let units : List α := chars (dataLength + 1) str
      return if units.getLast? = some Scalar.zero then some (units.take dataLength) else none

/-- The string readers after the length: the length, unless the characters are not there, and the
characters, unless something was wrong. When the characters are not there the cursor goes back to
the length. -/
def readAfterLength {α : Type} [Scalar α] [DecidableEq α] (oldCursor : Nat)
    (dataLength : BitVec 32) : ParcelM (Option (BitVec 32) × Option (List α)) := do
  if dataLength.toInt < 0 ∨ dataLength.toInt ≥ int32Max then return (some dataLength, none)
  match ← readCharBody dataLength.toNat with
  | some units => return (some dataLength, some units)
  | none =>
      modify fun p => { p with readCursor := oldCursor }
      return (none, none)

/-- The common body of the string readers. -/
def readChars {α : Type} [Scalar α] [DecidableEq α] :
    ParcelM (Option (BitVec 32) × Option (List α)) := do
  let oldCursor := (← get).readCursor
  let (ok, dataLength) ← read (0 : BitVec 32)
  if !ok then return (none, none)
  readAfterLength oldCursor dataLength

instance : Scalar Char8 where
  width := 1
  encode c := [c]
  decode l := l.headD 0
  zero := 0
  width_pos := Nat.one_pos
  width_le := Nat.le_add_left 1 7
  length_encode _ := rfl
  decode_encode _ := rfl

/-- `const std::string ReadString()` and `const std::u16string ReadString16()`. -/
def readString : ParcelM (List Char8) := (fun r => r.2.getD []) <$> readChars
def readString16 : ParcelM (List Char16) := (fun r => r.2.getD []) <$> readChars

/-- `bool ReadString(std::string &)`; a failure clears the string. -/
def readStringRef : ParcelM (Bool × List Char8) :=
  (fun r => (r.2.isSome, r.2.getD [])) <$> readChars
def readString16Ref : ParcelM (Bool × List Char16) :=
  (fun r => (r.2.isSome, r.2.getD [])) <$> readChars

/-- The readers that also report the length they read. -/
def readString8WithLength (readLength : BitVec 32) : ParcelM (List Char8 × BitVec 32) :=
  (fun r => (r.2.getD [], r.1.getD readLength)) <$> readChars
def readString16WithLength (readLength : BitVec 32) : ParcelM (List Char16 × BitVec 32) :=
  (fun r => (r.2.getD [], r.1.getD readLength)) <$> readChars

/-! ## Vectors -/

/-- `std::vector::resize`: new elements are value-initialised. -/
def resizeVector {α : Type} (val : List α) (size : Nat) (zero : α) : List α :=
  val.take size ++ List.replicate (size - val.length) zero

/-- `std::vector::max_size` for elements of `size` bytes; a `std::vector<bool>` is limited by its
difference type alone. -/
def vectorMaxSize (size : Nat) : Nat := ptrdiffMax / size

/-- The element loop of `ReadVector`: it stops at the first element that cannot be read. -/
def readElems {α : Type} (readElem : α → ParcelM (Bool × α)) :
    List α → ParcelM (Bool × List α)
  | [] => return (true, [])
  | v :: vs => do
      let (ok, v') ← readElem v
      if !ok then return (false, v' :: vs)
      let (ok, vs') ← readElems readElem vs
      return (ok, v' :: vs')

/-- `ReadVector` with the element reader `readElem`; `size` is `sizeof(T)` and `maxSize` is
`val->max_size()`. -/
def readVector {α : Type} (size maxSize : Nat) (zero : α) (readElem : α → ParcelM (Bool × α))
    (val : Option (List α)) : ParcelM (Bool × Option (List α)) := do
  match val with
  | none => return (false, none)
  | some val =>
      let len ← readInt32
      if len.toInt < 0 then return (false, some val)
      let readAbleSize := (← get).getReadableBytes / size
      if len.toNat > readAbleSize ∨ len.toNat > maxSize then return (false, some val)
      let (ok, val) ← readElems readElem (resizeVector val len.toNat zero)
      if !ok then return (false, some val)
      skipBytes (getPadSize (szMul len.toNat size))
      return (true, some val)

/-- `ReadFixedAlignVector<Type>`: as `ReadVector`, with the size of `Type`. -/
def readFixedAlignVector {α : Type} (size maxSize : Nat) (zero : α)
    (specialRead : α → ParcelM (Bool × α)) (val : Option (List α)) :
    ParcelM (Bool × Option (List α)) :=
  readVector size maxSize zero specialRead val

/-- `ReadStringVector` and `ReadString16Vector`: the elements come from a reader that does not
report failure. -/
def readStringsVector {α : Type} (readElem : ParcelM (List α)) (val : Option (List (List α))) :
    ParcelM (Bool × Option (List (List α))) := do
  match val with
  | none => return (false, none)
  | some val =>
      let len ← readInt32
      if len.toInt < 0 then return (false, some val)
      let readAbleSize := (← get).getReadableBytes
      if len.toNat > readAbleSize ∨ vectorMaxSize sizeofString < len.toNat then
        return (false, some val)
      let val ← (resizeVector val len.toNat []).mapM fun _ => readElem
      return (true, some val)

def readBoolVector := readFixedAlignVector 4 ptrdiffMax false readBoolRef
def readInt8Vector := readVector 1 (vectorMaxSize 1) 0 readInt8Unaligned
def readInt16Vector := readFixedAlignVector 4 (vectorMaxSize 2) 0 readInt16Ref
def readInt32Vector := readVector 4 (vectorMaxSize 4) 0 readInt32Ref
def readInt64Vector := readVector 8 (vectorMaxSize 8) 0 readInt64Ref
def readUInt8Vector := readVector 1 (vectorMaxSize 1) 0 readUint8Unaligned
def readUInt16Vector := readVector 2 (vectorMaxSize 2) 0 readUint16Unaligned
def readUInt32Vector := readVector 4 (vectorMaxSize 4) 0 readUint32Ref
def readUInt64Vector := readVector 8 (vectorMaxSize 8) 0 readUint64Ref
def readFloatVector := readVector 4 (vectorMaxSize 4) 0 readFloatRef
def readDoubleVector := readVector 8 (vectorMaxSize 8) 0 readDoubleRef
def readStringVector := readStringsVector readString
def readString16Vector := readStringsVector readString16

end CUtils
