import Mathlib.Data.Int.Order.Basic
import Mathlib.Logic.Function.Basic

/-!
# Memory-mapped files

A `MappedFile` is a set of parameters (path, offset, size, mode, hint), a descriptor and, while it
is mapped, a region `[rStart_, rEnd_]` with a segment in it that starts at `data_`. `off_t` and
addresses are integers, a null pointer is `0`, and `page` is the page size.

Around the object stands what it sees of the system: the files, the memory mapped for the object,
and what the system calls still to come will answer (`answers`), so a pattern of failing calls is
some initial state. A call fails when its answer says so or when its arguments are no good; an
address that `mmap` or `mremap` return is whatever page the answer names. A path names its file, so
`realpath` has nothing to change; it may fail. `close` and `unlink` of the descriptor and the file
that `OpenFile` gives up succeed.
-/

namespace CUtils.MappedFiles

abbrev MapMode := BitVec 8

namespace MapMode

def default : MapMode := 0
def mapPrivate : MapMode := 2
def readOnly : MapMode := 4
def createIfAbsent : MapMode := 8

end MapMode

/-- `MappedFile::DEFAULT_LENGTH`. -/
def defaultLength : Int := -1

inductive ErrCode
  | ok | failed | invalidOperation | invalidValue
  deriving DecidableEq

structure Answer where
  ok : Bool
  /-- Where a mapping is put, in pages. -/
  place : Nat

/-- The directory and the sizes of the files in it. -/
structure Files (Path : Type) where
  inode : Path → Option Nat
  size : Nat → Nat
  /-- The number the next new file gets. -/
  next : Nat

structure Fd where
  inode : Nat
  writable : Bool
  deriving DecidableEq

/-- What of `openFlag_` depends on the mode. -/
structure OpenFlag where
  create : Bool
  writable : Bool
  deriving DecidableEq

/-- A call of `munmap` or `mremap`: the range it names, and what was mapped for the object then. -/
structure Call where
  start : Int
  stop : Int
  held : Int → Bool

structure Memory where
  /-- The addresses that are mapped for the object. -/
  held : Int → Bool
  /-- The file offset that the start of the region stands for. -/
  base : Int
  calls : List Call

structure MappedFile (Path : Type) where
  data : Int := 0
  rStart : Int := 0
  rEnd : Int := 0
  isMapped : Bool := false
  isNormed : Bool := false
  isNewFile : Bool := false
  path : Path
  size : Int := defaultLength
  offset : Int := 0
  mode : MapMode := MapMode.default
  fd : Option Fd := none
  openFlag : OpenFlag := ⟨false, false⟩
  hint : Int := 0

structure State (Path : Type) where
  obj : MappedFile Path
  memory : Memory
  files : Files Path
  answers : Nat → Answer

variable {Path : Type} [DecidableEq Path]

/-- `RoundSize`. Division truncates. -/
def roundSize (page input : Int) : Int :=
  if input.tmod page = 0 then input else (input.tdiv page + 1) * page

/-- `ValidMappedSize`: the size that is valid, if there is one. -/
def validMappedSize (page offset targetSize stSize : Int) : Option Int :=
  let max := roundSize page stSize - offset
  if max > 0 then some (if targetSize > max then max else targetSize) else none

def MappedFile.endOffset (m : MappedFile Path) : Int :=
  if m.size = defaultLength then -1 else m.offset + m.size - 1

/-- `End()`. -/
def MappedFile.last (m : MappedFile Path) : Int := if m.data = 0 then 0 else m.data + m.size - 1

namespace State

/-! ## System calls -/

def ask (s : State Path) : Answer × State Path :=
  (s.answers 0, { s with answers := fun n => s.answers (n + 1) })

/-- `realpath`; that there is no such file is no failure. -/
def normalizePath (s : State Path) : Bool × State Path := (s.ask.1.ok, s.ask.2)

def fileExists (s : State Path) : Bool := (s.files.inode s.obj.path).isSome

/-- `stat(path_)`, as far as the size goes. -/
def stat (s : State Path) : Option Int × State Path :=
  (if s.ask.1.ok then (s.files.inode s.obj.path).map fun inode => (s.files.size inode : Int) else none,
    s.ask.2)

/-- `open(path_, openFlag_)`. -/
def openPath (s : State Path) : Option Fd × State Path :=
  let s' := s.ask.2
  if !s.ask.1.ok then (none, s')
  else
    match s.files.inode s.obj.path with
    | some inode => (some ⟨inode, s.obj.openFlag.writable⟩, s')
    | none =>
        if s.obj.openFlag.create then
          (some ⟨s.files.next, s.obj.openFlag.writable⟩, { s' with files := {
            inode := Function.update s.files.inode s.obj.path (some s.files.next)
            size := Function.update s.files.size s.files.next 0
            next := s.files.next + 1 } })
        else (none, s')

def unlink (s : State Path) : State Path :=
  { s with files := { s.files with inode := Function.update s.files.inode s.obj.path none } }

def ftruncate (s : State Path) (fd : Fd) (length : Int) : Bool × State Path :=
  let s' := s.ask.2
  if s.ask.1.ok ∧ fd.writable = true ∧ 0 ≤ length then
    (true, { s' with files := { s.files with
      size := Function.update s.files.size fd.inode length.toNat } })
  else (false, s')

def close (s : State Path) : Bool × State Path := (s.ask.1.ok, s.ask.2)

variable (page : Int)

def mmap (s : State Path) : Option Int × State Path :=
  let s' := s.ask.2
  if s.ask.1.ok ∧ 0 < s.obj.size ∧ s.obj.offset.tmod page = 0 then
    let address := (s.ask.1.place + 1) * page
    (some address, { s' with memory := { s.memory with
      held := fun x => s.memory.held x ||
        decide (address ≤ x ∧ x < address + roundSize page s.obj.size)
      base := s.obj.offset } })
  else (none, s')

/-- The call is noted whether it succeeds or not. -/
def noteCall (s : State Path) : State Path :=
  { s with memory := { s.memory with
    calls := ⟨s.obj.rStart, s.obj.rStart + roundSize page s.obj.size, s.memory.held⟩ ::
      s.memory.calls } }

def releaseRange (s : State Path) : State Path :=
  { s with memory := { s.memory with
    held := fun x => s.memory.held x &&
      !decide (s.obj.rStart ≤ x ∧ x < s.obj.rStart + roundSize page s.obj.size) } }

/-- `munmap(rStart_, size_)`. -/
def munmap (s : State Path) : Bool × State Path :=
  let s' := s.ask.2.noteCall page
  if s.ask.1.ok ∧ 0 < s.obj.size ∧ s.obj.rStart.tmod page = 0 then (true, s'.releaseRange page)
  else (false, s')

/-- `mremap(rStart_, size_, newSize, MREMAP_MAYMOVE)`. -/
def mremap (s : State Path) (newSize : Int) : Option Int × State Path :=
  let s' := s.ask.2.noteCall page
  if s.ask.1.ok ∧ 0 < s.obj.size ∧ 0 < newSize ∧ s.obj.rStart.tmod page = 0 then
    let address := (s.ask.1.place + 1) * page
    let s'' := s'.releaseRange page
    (some address, { s'' with memory := { s''.memory with
      held := fun x => s''.memory.held x ||
        decide (address ≤ x ∧ x < address + roundSize page newSize) } })
  else (none, s')

/-! ## Normalizing -/

/-- The part of `NormalizeSize` for a file that is there. -/
def fitSize (s : State Path) : Bool × State Path :=
  let st := s.stat
  let size := if st.1 = none then page else s.obj.size
  let stSize := st.1.getD 0
  let size := if size = defaultLength then stSize else size
  match validMappedSize page s.obj.offset size stSize with
  | none => (false, { st.2 with obj := { s.obj with size := size } })
  | some valid => (true, { st.2 with obj := { s.obj with size := valid } })

def normalizeSize (s : State Path) : Bool × State Path :=
  if s.obj.size = 0 ∨ s.obj.size < defaultLength then (false, s)
  else
    let np := s.normalizePath
    if !np.1 then (false, np.2)
    else if !np.2.fileExists then
      if s.obj.mode &&& MapMode.createIfAbsent = MapMode.default then (false, np.2)
      else
        (true, { np.2 with obj := { s.obj with
          size := if s.obj.size = defaultLength then page else s.obj.size
          isNewFile := true } })
    else np.2.fitSize page

def normalizeMode (m : MappedFile Path) : MappedFile Path :=
  let mode := m.mode &&& (MapMode.mapPrivate ||| MapMode.readOnly ||| MapMode.createIfAbsent)
  { m with
    mode := mode
    openFlag :=
      { create := decide (mode &&& MapMode.createIfAbsent ≠ MapMode.default)
        writable := decide (mode &&& MapMode.readOnly = MapMode.default) } }

def normalize (s : State Path) : ErrCode × State Path :=
  if s.obj.isNormed then (.invalidOperation, s)
  else if s.obj.offset < 0 ∨ s.obj.offset.tmod page ≠ 0 then (.invalidValue, s)
  else
    let ns := s.normalizeSize page
    if !ns.1 then (.invalidValue, ns.2)
    else (.ok, { ns.2 with obj := { normalizeMode ns.2.obj with isNormed := true } })

/-! ## Mapping -/

/-- What `OpenFile` does with a file it takes for new. -/
def sizeNewFile (s : State Path) (fd : Fd) : Bool × State Path :=
  let np := s.normalizePath
  if !np.1 then (false, np.2.unlink)
  else
    let ft := np.2.ftruncate fd (s.obj.endOffset + 1)
    if !ft.1 then (false, ft.2.unlink)
    else (true, { ft.2 with obj := { s.obj with isNewFile := false } })

def openFile (s : State Path) : Bool × State Path :=
  match s.openPath with
  | (none, s) => (false, s)
  | (some fd, s) =>
      let nf := if s.obj.isNewFile then s.sizeNewFile fd else (true, s)
      if !nf.1 then (false, nf.2)
      else (true, { nf.2 with obj := { nf.2.obj with fd := some fd } })

/-- The loop around `mmap`: a failure with a hint is tried again without. -/
def tryMap (s : State Path) : Option Int × State Path :=
  let first := s.mmap page
  if first.1 = none ∧ s.obj.hint ≠ 0 then
    { first.2 with obj := { s.obj with hint := 0 } }.mmap page
  else first

def setRegion (s : State Path) (address : Int) : State Path :=
  { s with obj := { s.obj with
    rStart := address
    rEnd := address + (roundSize page s.obj.size - 1)
    data := address
    isMapped := true } }

def map (s : State Path) : ErrCode × State Path :=
  if s.obj.isMapped then (.invalidOperation, s)
  else
    let n := s.normalize page
    if n.1 ≠ .ok ∧ n.1 ≠ .invalidOperation then n
    else
      let o := if n.2.obj.fd = none then n.2.openFile else (true, n.2)
      if !o.1 then (.failed, o.2)
      else
        match o.2.tryMap page with
        | (none, s) => (.failed, s)
        | (some address, s) => (.ok, s.setRegion page address)

def unmap (s : State Path) : ErrCode × State Path :=
  if !s.obj.isMapped then (.invalidOperation, s)
  else
    let m := s.munmap page
    if !m.1 then (.failed, m.2)
    else (.ok, { m.2 with obj := { s.obj with rStart := 0, rEnd := 0, data := 0, isMapped := false } })

/-- `Resize()`. -/
def remap (s : State Path) : ErrCode × State Path :=
  if s.obj.isMapped then (.invalidOperation, s) else s.map page

def syncFileSize (s : State Path) (newSize : Int) : Bool × State Path :=
  if newSize > s.obj.size then
    match s.stat with
    | (none, s) => (false, s)
    | (some stSize, s) =>
        if s.obj.offset + newSize ≤ stSize then (true, s)
        else
          match s.obj.fd with
          | none => (false, s)
          | some fd => s.ftruncate fd (s.obj.offset + newSize)
  else (true, s)

/-- The part of `Resize(newSize, sync)` that settles the size against the file. -/
def settleSize (s : State Path) (newSize : Int) (sync : Bool) : Except ErrCode Int × State Path :=
  if sync then
    let sy := s.syncFileSize newSize
    (if sy.1 then .ok newSize else .error .failed, sy.2)
  else
    let st := s.stat
    match st.1 with
    | none => (.error .invalidOperation, st.2)
    | some stSize =>
        match validMappedSize page s.obj.offset newSize stSize with
        | none => (.error .invalidValue, st.2)
        | some valid => (.ok valid, st.2)

/-- The size that `Resize(newSize, sync)` starts from. -/
def requestedSize (s : State Path) (newSize : Int) : Int × State Path :=
  if newSize = defaultLength then (s.stat.1.getD page, s.stat.2) else (newSize, s)

/-- `Resize(newSize, sync)`. -/
def resize (s : State Path) (newSize : Int) (sync : Bool) : ErrCode × State Path :=
  let rq := s.requestedSize page newSize
  if rq.1 = 0 ∨ rq.1 < defaultLength ∨ rq.1 = s.obj.size then (.invalidOperation, rq.2)
  else if !s.obj.isMapped then (.invalidOperation, rq.2)
  else
    let se := rq.2.settleSize page rq.1 sync
    match se.1 with
    | .error e => (e, se.2)
    | .ok size =>
        match se.2.mremap page size with
        | (none, s) => (.failed, s)
        | (some address, s) =>
            (.ok, { s with obj := { s.obj with
              rStart := address
              size := size
              rEnd := address + roundSize page size - 1
              data := address } })

/-- `TurnNext` at the end of the region. -/
def turnRegion (s : State Path) (stSize : Int) : ErrCode × State Path :=
  let oldSize := s.obj.size
  let size := if s.obj.endOffset + 1 + oldSize > stSize then stSize - s.obj.endOffset - 1 else oldSize
  let s' := { s with obj := { s.obj with
    size := size
    isNormed := false
    hint := s.obj.rStart
    offset := s.obj.offset + oldSize } }
  let u := s'.unmap page
  let r := if u.1 = .ok then u.2.remap page else u
  if r.1 ≠ .ok then
    (r.1, { r.2 with obj := { r.2.obj with
      offset := s.obj.offset
      size := oldSize
      hint := s.obj.hint
      isNormed := true } })
  else r

/-- `TurnNext` inside the region. -/
def turnSegment (s : State Path) : ErrCode × State Path :=
  let oldSize := s.obj.size
  let curEnd := s.obj.last
  (.ok, { s with obj := { s.obj with
    size := if curEnd + oldSize > s.obj.rEnd then s.obj.rEnd - curEnd else oldSize
    data := s.obj.data + oldSize
    offset := s.obj.offset + oldSize } })

def turnNext (s : State Path) : ErrCode × State Path :=
  if !s.obj.isNormed then (.invalidOperation, s)
  else
    match s.stat with
    | (none, s) => (.failed, s)
    | (some stSize, s) =>
        if s.obj.endOffset + 1 ≥ stSize then (.invalidOperation, s)
        else if s.obj.isMapped then
          if s.obj.last = s.obj.rEnd then s.turnRegion page stSize else s.turnSegment
        else
          (.ok, { s with obj := { s.obj with offset := s.obj.offset + page, isNormed := false } })

/-! ## Changing and clearing -/

/-- The way of all `Change` functions: a mapped object is unmapped first. -/
def change (s : State Path) (differs : Bool) (set : State Path → Bool × State Path) :
    Bool × State Path :=
  if differs then
    if !s.obj.isMapped then set s
    else
      let u := s.unmap page
      if u.1 = .ok then set u.2 else (false, u.2)
  else (false, s)

def changeOffset (s : State Path) (val : Int) : Bool × State Path :=
  s.change page (decide (s.obj.offset ≠ val)) fun s =>
    (true, { s with obj := { s.obj with offset := val, isNormed := false } })

def changeSize (s : State Path) (val : Int) : Bool × State Path :=
  s.change page (decide ((val > 0 ∨ val = defaultLength) ∧ s.obj.size ≠ val)) fun s =>
    (true, { s with obj := { s.obj with size := val, isNormed := false } })

/-- `ChangePath`; it alone closes the descriptor. -/
def changePath (s : State Path) (val : Path) : Bool × State Path :=
  s.change page (decide (s.obj.path ≠ val)) fun s =>
    if s.obj.fd = none then (true, { s with obj := { s.obj with path := val, isNormed := false } })
    else
      let c := s.close
      if !c.1 then (false, c.2)
      else (true, { c.2 with obj := { s.obj with path := val, isNormed := false, fd := none } })

def changeHint (s : State Path) (val : Int) : Bool × State Path :=
  s.change page (decide (s.obj.hint ≠ val)) fun s =>
    (true, { s with obj := { s.obj with hint := val, isNormed := false } })

def changeMode (s : State Path) (val : MapMode) : Bool × State Path :=
  s.change page (decide (s.obj.mode ≠ val)) fun s =>
    (true, { s with obj := { s.obj with mode := val, isNormed := false } })

/-- `Reset`; `empty` is the empty path. -/
def reset (empty : Path) (s : State Path) : State Path := { s with obj := { path := empty } }

/-- What a forced `Clear` or the destructor could not unmap no longer belongs to the object. -/
def abandon (s : State Path) : State Path :=
  { s with memory := { s.memory with held := fun _ => false } }

/-- The end of `Clear`. -/
def closeAndReset (empty : Path) (s : State Path) : ErrCode × State Path :=
  if s.obj.fd = none then (.ok, s.reset empty)
  else
    let c := s.close
    if !c.1 then (.failed, c.2) else (.ok, c.2.reset empty)

def clear (empty : Path) (s : State Path) (force : Bool) : ErrCode × State Path :=
  if s.obj.isMapped then
    let u := s.unmap page
    if u.1 = .ok then u.2.closeAndReset empty
    else if !force then u
    else
      let c := u.2.closeAndReset empty
      if c.1 = .ok then (c.1, c.2.abandon) else c
  else s.closeAndReset empty

/-- The destructor. -/
def destroy (empty : Path) (s : State Path) : State Path :=
  let s := if s.obj.isMapped then (s.unmap page).2 else s
  let s := if s.obj.fd = none then s else s.close.2
  (s.reset empty).abandon

end State

/-! ## Runs -/

inductive Op (Path : Type)
  | normalize
  | map
  | unmap
  /-- `Resize()`. -/
  | remap
  | resize (newSize : Int) (sync : Bool)
  | turnNext
  | changeOffset (val : Int)
  | changeSize (val : Int)
  | changePath (val : Path)
  | changeHint (val : Int)
  | changeMode (val : MapMode)
  | clear (force : Bool)
  /-- The object is destroyed and another one constructed in its place. -/
  | construct (path : Path) (mode : MapMode) (offset size hint : Int)

def State.step (page : Int) (empty : Path) (s : State Path) : Op Path → State Path
  | .normalize => (s.normalize page).2
  | .map => (s.map page).2
  | .unmap => (s.unmap page).2
  | .remap => (s.remap page).2
  | .resize newSize sync => (s.resize page newSize sync).2
  | .turnNext => (s.turnNext page).2
  | .changeOffset val => (s.changeOffset page val).2
  | .changeSize val => (s.changeSize page val).2
  | .changePath val => (s.changePath page val).2
  | .changeHint val => (s.changeHint page val).2
  | .changeMode val => (s.changeMode page val).2
  | .clear force => (s.clear page empty force).2
  | .construct path mode offset size hint =>
      { s.destroy page empty with obj := { path := path, mode, offset, size, hint } }

def State.run (page : Int) (empty : Path) (s : State Path) (ops : List (Op Path)) : State Path :=
  ops.foldl (State.step page empty) s

/-- An object with nothing mapped, among some files. -/
def State.new (path : Path) (files : Files Path) (answers : Nat → Answer) : State Path where
  obj := { path := path }
  memory := ⟨fun _ => false, 0, []⟩
  files := files
  answers := answers

/-! ## Several objects -/

structure World (Path : Type) where
  objs : Nat → MappedFile Path × Memory
  files : Files Path
  answers : Nat → Answer

inductive WorldOp (Path : Type)
  | call (i : Nat) (op : Op Path)
  /-- Object `j` is destroyed and constructed from object `i`. -/
  | moveConstruct (i j : Nat)
  /-- Object `i` is moved to object `j`. -/
  | moveAssign (i j : Nat)

namespace World

def state (w : World Path) (i : Nat) : State Path := ⟨(w.objs i).1, (w.objs i).2, w.files, w.answers⟩

def put (w : World Path) (i : Nat) (s : State Path) : World Path where
  objs := Function.update w.objs i (s.obj, s.memory)
  files := s.files
  answers := s.answers

/-- Object `j` takes over what object `i` has, and `i` is reset. -/
def take (empty : Path) (w : World Path) (i j : Nat) : World Path :=
  let taken := Function.update w.objs j (w.objs i)
  { w with objs := Function.update taken i ({ path := empty }, ⟨fun _ => false, 0, []⟩) }

def step (page : Int) (empty : Path) (w : World Path) : WorldOp Path → World Path
  | .call i op => w.put i ((w.state i).step page empty op)
  | .moveConstruct i j =>
      if i = j then w else (w.put j ((w.state j).destroy page empty)).take empty i j
  | .moveAssign i j => (w.put j ((w.state j).clear page empty true).2).take empty i j

def run (page : Int) (empty : Path) (w : World Path) (ops : List (WorldOp Path)) : World Path :=
  ops.foldl (step page empty) w

end World

end CUtils.MappedFiles
