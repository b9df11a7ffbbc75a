import CUtils.Lib.ByteMemory
import CUtils.Lib.Resource
import CUtils.Lib.StateRun

/-!
# Shared memory

An `Ashmem` holds a descriptor of a region in the kernel and, while it is mapped, the address it is
mapped at. The fields are those of `ashmem.h`; `int32_t` values are 32-bit words. Beside them stand
the bytes of the region and what the object has asked of the kernel: the mappings it made and gave
back, and the descriptors it closed.

What the kernel answers is part of a call: the address `mmap` would choose (`none` when it fails),
the protection mask the `ioctl` returns. `mmap` also fails for an empty region, for one larger than
the address space and for a descriptor that is none.
-/

namespace CUtils.Ashmems

open ByteMemory Resource

/-- A mapped range of addresses. -/
structure Region where
  addr : Nat
  len : Nat
  deriving DecidableEq, Repr

def protRead : BitVec 32 := 1
def protWrite : BitVec 32 := 2

structure Ashmem where
  memoryFd : Int
  memorySize : BitVec 32
  flag : BitVec 32
  /-- `none` is a null pointer. -/
  startAddr : Option Nat
  content : Mem
  mappings : List (Deal Region)
  closed : List Int

/-- `Ashmem::Ashmem(int fd, int32_t size)`. -/
def Ashmem.new (fd : Int) (size : BitVec 32) : Ashmem where
  memoryFd := fd
  memorySize := size
  flag := 0
  startAddr := none
  content _ := 0
  mappings := []
  closed := []

/-- An `int32_t` passed as a `size_t`. -/
def sizeArg (n : BitVec 32) : Nat := (n.signExtend 64).toNat

/-- The address of a new mapping of `length` bytes, `none` for `MAP_FAILED`. -/
def mmap (length : Nat) (fd : Int) (answer : Option Nat) : Option Nat :=
  if length = 0 ∨ 2 ^ 63 ≤ length ∨ fd < 0 then none else answer

namespace Ashmem

def closeAshmem (s : Ashmem) : Ashmem :=
  let s :=
    if s.memoryFd > 0 then { s with memoryFd := -1, closed := s.memoryFd :: s.closed } else s
  { s with memorySize := 0, flag := 0, startAddr := none }

def mapAshmem (s : Ashmem) (mapType : BitVec 32) (answer : Option Nat) : Bool × Ashmem :=
  match mmap (sizeArg s.memorySize) s.memoryFd answer with
  | none => (false, s)
  | some startAddr =>
      (true,
        { s with
          startAddr := some startAddr
          flag := mapType
          mappings := .take ⟨startAddr, sizeArg s.memorySize⟩ :: s.mappings })

def mapReadAndWriteAshmem (s : Ashmem) (answer : Option Nat) : Bool × Ashmem :=
  s.mapAshmem (protRead ||| protWrite) answer

def mapReadOnlyAshmem (s : Ashmem) (answer : Option Nat) : Bool × Ashmem :=
  s.mapAshmem protRead answer

def unmapAshmem (s : Ashmem) : Ashmem :=
  let s :=
    match s.startAddr with
    | none => s
    | some startAddr =>
        { s with
          startAddr := none
          mappings := .give ⟨startAddr, sizeArg s.memorySize⟩ :: s.mappings }
  { s with flag := 0 }

/-- `CheckValid`; `protection` is what `GetProtection` returns. The sum is an `int32_t` too. -/
def checkValid (s : Ashmem) (size offset cmd protection : BitVec 32) : Bool :=
  if s.startAddr.isNone then false
  else if size.toInt < 0 ∨ size.toInt > s.memorySize.toInt ∨ offset.toInt < 0 ∨
      offset.toInt > s.memorySize.toInt then false
  else if (offset + size).toInt > s.memorySize.toInt then false
  else if protection &&& cmd = 0 ∨ s.flag &&& cmd = 0 then false
  else true

/-- `memcpy_s` to `[pos, pos + destMax)` of the region. It refuses an empty destination, and wipes
the destination when the source does not fit. -/
def memcpyS (s : Ashmem) (pos destMax : Nat) (src : Mem) (count : Nat) : Bool × Ashmem :=
  if destMax = 0 then (false, s)
  else if count > destMax then
    (false, { s with content := s.content.write pos destMax fun _ => 0 })
  else (true, { s with content := s.content.write pos count src })

def writeToAshmem (s : Ashmem) (data : Option Mem) (size offset protection : BitVec 32) :
    Bool × Ashmem :=
  match data with
  | none => (false, s)
  | some data =>
      if !s.checkValid size offset protWrite protection then (false, s)
      else s.memcpyS offset.toNat (sizeArg (s.memorySize - offset)) data (sizeArg size)

/-- The offset in the region that the returned pointer has, `none` for a null pointer. -/
def readFromAshmem (s : Ashmem) (size offset protection : BitVec 32) : Option Nat :=
  if !s.checkValid size offset protRead protection then none else some offset.toNat

/-- `Ashmem::~Ashmem()`. -/
def destroy (s : Ashmem) : Ashmem := s.unmapAshmem.closeAshmem

end Ashmem

/-- One call of a public operation, with its arguments and what the kernel answers. -/
inductive Op
  | mapAshmem (mapType : BitVec 32) (answer : Option Nat)
  | mapReadAndWriteAshmem (answer : Option Nat)
  | mapReadOnlyAshmem (answer : Option Nat)
  | unmapAshmem
  | closeAshmem
  | writeToAshmem (data : Option Mem) (size offset protection : BitVec 32)
  | readFromAshmem (size offset protection : BitVec 32)

def Ashmem.step (s : Ashmem) : Op → Ashmem
  | .mapAshmem mapType answer => (s.mapAshmem mapType answer).2
  | .mapReadAndWriteAshmem answer => (s.mapReadAndWriteAshmem answer).2
  | .mapReadOnlyAshmem answer => (s.mapReadOnlyAshmem answer).2
  | .unmapAshmem => s.unmapAshmem
  | .closeAshmem => s.closeAshmem
  | .writeToAshmem data size offset protection =>
      (s.writeToAshmem data size offset protection).2
  | .readFromAshmem _ _ _ => s

def Ashmem.run (s : Ashmem) (ops : List Op) : Ashmem := ops.foldl Ashmem.step s

end CUtils.Ashmems
