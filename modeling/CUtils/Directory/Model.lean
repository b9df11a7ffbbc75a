import CUtils.Lib.Resource

/-!
# `directory_ex.cpp`: removing a directory tree

`ForceRemoveDirectory` walks the tree with an explicit stack, removes the files on the way and
keeps every directory it has opened on a second stack, from which the directories are removed at
the end. `ForceRemoveDirectoryBMS` recurses and removes each directory as soon as it has been read.

The system calls work on a `Volume`, which is a tree and the paths on which calls fail, and on a
`Disk`, which is what has been removed and opened so far. The tree itself stays as it was: an entry
is only removed after `readdir` has returned it, so `readdir` returns what was there at the start.
A call through a descriptor that is not open fails.
-/

namespace CUtils.Directory

open Resource

/-- The names from an entry up to the root, so the parent is the tail. The root is `[]`. -/
abbrev Path := List String

instance : LawfulBEq Path := inferInstance

/-- What `readdir` returns for a directory, entry by entry. -/
inductive Entries
  | nil
  /-- The entry `.` or `..`. -/
  | dots (rest : Entries)
  /-- Anything that is not a directory, symbolic links included. -/
  | file (name : String) (rest : Entries)
  | dir (name : String) (sub rest : Entries)
  deriving DecidableEq, Repr

/-- The paths of everything below the directory `p`. -/
def Entries.paths (p : Path) : Entries → List Path
  | nil => []
  | dots rest => rest.paths p
  | file name rest => (name :: p) :: rest.paths p
  | dir name sub rest => (name :: p) :: (sub.paths (name :: p) ++ rest.paths p)

/-- How many directories there are. -/
def Entries.dirs : Entries → Nat
  | nil => 0
  | dots rest | file _ rest => rest.dirs
  | dir _ sub rest => 1 + sub.dirs + rest.dirs

/-- The paths on which a call fails whatever the state. -/
structure Faults where
  opendir : Bool := false
  openat : Path → Bool := fun _ => false
  fdopendir : Path → Bool := fun _ => false
  dirfd : Path → Bool := fun _ => false
  faccessat : Path → Bool := fun _ => false
  unlinkat : Path → Bool := fun _ => false
  remove : Bool := false

structure Volume where
  root : Entries
  faults : Faults := {}
  /-- No directory has two entries of one name. -/
  distinct : (root.paths []).Nodup := by decide

def Volume.paths (v : Volume) : List Path := v.root.paths []

/-- The entries of the directory `p`. -/
def Volume.children (v : Volume) (p : Path) : List Path := v.paths.filter (·.tail = p)

/-- A call as it is recorded. A directory is opened by `opendir`, or by `openat` and `fdopendir`. -/
inductive Call
  | opened (dir : Path)
  | closed (dir : Path)
  | unlinked (fd : Path) (name : String) (removedir ok : Bool)
  | removed (ok : Bool)
  deriving DecidableEq, Repr

structure Disk where
  gone : List Path := []
  opened : List Path := []
  /-- The calls so far, the last one first. -/
  log : List Call := []

/-! ## System calls -/

def Disk.openDir (d : Disk) (p : Path) : Disk :=
  { d with opened := p :: d.opened, log := .opened p :: d.log }

/-- `closedir`, or `close` for a descriptor without a stream. -/
def Disk.closeDir (d : Disk) (p : Path) : Disk :=
  { d with opened := d.opened.erase p, log := .closed p :: d.log }

variable (v : Volume)

/-- `faccessat(fd, name, F_OK, AT_SYMLINK_NOFOLLOW) == 0`. -/
def Disk.access (d : Disk) (fd : Path) (name : String) : Bool :=
  fd ∈ d.opened ∧ (name :: fd) ∉ d.gone ∧ v.faults.faccessat (name :: fd) = false

/-- `unlinkat` succeeds; with `AT_REMOVEDIR` the directory has to be empty. -/
def Disk.unlinks (d : Disk) (fd : Path) (name : String) (removedir : Bool) : Bool :=
  fd ∈ d.opened ∧ (name :: fd) ∉ d.gone ∧ v.faults.unlinkat (name :: fd) = false ∧
    (removedir = true → ∀ c ∈ v.children (name :: fd), c ∈ d.gone)

def Disk.unlinkat (d : Disk) (fd : Path) (name : String) (removedir : Bool) : Bool × Disk :=
  if d.unlinks v fd name removedir then
    (true,
      { d with gone := (name :: fd) :: d.gone, log := .unlinked fd name removedir true :: d.log })
  else (false, { d with log := .unlinked fd name removedir false :: d.log })

/-- `remove(path)` on the root. -/
def Disk.remove (d : Disk) : Bool × Disk :=
  if v.faults.remove = false ∧ ∀ c ∈ v.children [], c ∈ d.gone then
    (true, { d with gone := [] :: d.gone, log := .removed true :: d.log })
  else (false, { d with log := .removed false :: d.log })

/-- `faccessat(AT_FDCWD, path, F_OK, AT_SYMLINK_NOFOLLOW) == 0`. -/
def Disk.rootExists (d : Disk) : Bool := [] ∉ d.gone

/-- The lines both functions end with, from `closedir(dir)` on. -/
def removeRoot (d : Disk) : Bool × Disk :=
  let d := d.closeDir []
  if d.rootExists then
    let r := d.remove v
    if !r.1 then (false, r.2) else (!r.2.rootExists, r.2)
  else (!d.rootExists, d)

/-! ## `ForceRemoveDirectory` -/

/-- A `DIR *`: the directory and what `readdir` is still to return. -/
structure Dir where
  path : Path
  entries : Entries

/-- `name` is as long as `d_name`, so copying into it does not fail. -/
structure DirectoryNode where
  dir : Path
  currentFd : Path
  name : String

/-- The local variables of `ForceRemoveDirectory`. -/
structure Walk where
  disk : Disk
  traversStack : List Dir
  removeStack : List DirectoryNode := []
  ret : Bool := true

/-- The inner loop, reading the directory with descriptor `currentFd`. -/
def readEntries (currentFd : Path) : Entries → Walk → Walk
  | .nil, w => w
  | .dots rest, w => readEntries currentFd rest w
  | .dir name sub rest, w =>
      let subFd := name :: currentFd
      if v.faults.openat subFd then readEntries currentFd rest { w with ret := false }
      else if v.faults.fdopendir subFd then
        readEntries currentFd rest
          { w with disk := (w.disk.openDir subFd).closeDir subFd, ret := false }
      else
        readEntries currentFd rest
          { w with
            disk := w.disk.openDir subFd
            removeStack := ⟨subFd, currentFd, name⟩ :: w.removeStack
            traversStack := ⟨subFd, sub⟩ :: w.traversStack }
  | .file name rest, w =>
      if w.disk.access v currentFd name then
        let r := w.disk.unlinkat v currentFd name false
        if !r.1 then { w with disk := r.2, ret := false }
        else readEntries currentFd rest { w with disk := r.2 }
      else { w with ret := false }

/-- The outer loop, for at most `fuel` directories. -/
def traverse : Nat → Walk → Walk
  | 0, w => w
  | fuel + 1, w =>
      match w.traversStack with
      | [] => w
      | currentDir :: rest =>
          let w := { w with traversStack := rest }
          if v.faults.dirfd currentDir.path then traverse fuel { w with ret := false }
          else traverse fuel (readEntries v currentDir.path currentDir.entries w)

/-- The loop over `removeStack`. -/
def removeDirs : List DirectoryNode → Disk → Disk
  | [], d => d
  | node :: removeStack, d =>
      removeDirs removeStack ((d.closeDir node.dir).unlinkat v node.currentFd node.name true).2

def forceRemoveDirectory (fuel : Nat) : Bool × Disk :=
  if v.faults.opendir then (false, {})
  else
    let w := traverse v fuel
      { disk := Disk.openDir {} [], traversStack := [⟨[], v.root⟩] }
    removeRoot v (removeDirs v w.removeStack w.disk)

/-! ## `ForceRemoveDirectoryBMS` -/

/-- The loop of `ForceRemoveDirectoryInternal`, where the variable `ret` is overwritten by the
result for each directory that is read. -/
def internalLoop (rootFd : Path) : Entries → Bool → Disk → Bool × Disk
  | .nil, ret, d => (ret, d)
  | .dots rest, ret, d => internalLoop rootFd rest ret d
  | .dir name sub rest, _, d =>
      let subFd := name :: rootFd
      if v.faults.openat subFd then internalLoop rootFd rest false d
      else if v.faults.fdopendir subFd then
        internalLoop rootFd rest false ((d.openDir subFd).closeDir subFd)
      else
        -- the recursive call of `ForceRemoveDirectoryInternal`
        let r :=
          if v.faults.dirfd subFd then (false, d.openDir subFd)
          else internalLoop subFd sub true (d.openDir subFd)
        let u := (r.2.closeDir subFd).unlinkat v rootFd name true
        if !u.1 then internalLoop rootFd rest false u.2 else internalLoop rootFd rest r.1 u.2
  | .file name rest, ret, d =>
      if d.access v rootFd name then
        let r := d.unlinkat v rootFd name false
        if !r.1 then (false, r.2) else internalLoop rootFd rest ret r.2
      else (false, d)

def forceRemoveDirectoryInternal (dir : Dir) (d : Disk) : Bool × Disk :=
  if v.faults.dirfd dir.path then (false, d) else internalLoop v dir.path dir.entries true d

def forceRemoveDirectoryBMS : Bool × Disk :=
  if v.faults.opendir then (false, {})
  else removeRoot v (forceRemoveDirectoryInternal v ⟨[], v.root⟩ (Disk.openDir {} [])).2

/-! ## What is left -/

/-- The entries that have not been removed. -/
def Entries.prune (gone : List Path) (p : Path) : Entries → Entries
  | nil => nil
  | dots rest => dots (rest.prune gone p)
  | file name rest =>
      if name :: p ∈ gone then rest.prune gone p else file name (rest.prune gone p)
  | dir name sub rest =>
      if name :: p ∈ gone then rest.prune gone p
      else dir name (sub.prune gone (name :: p)) (rest.prune gone p)

/-- The remaining tree, `none` once the root is gone. -/
def Volume.remaining (d : Disk) : Option Entries :=
  if [] ∈ d.gone then none else some (v.root.prune d.gone [])

end CUtils.Directory
