import CUtils.Directory.Listing
import CUtils.Lib.CountOnce
import Mathlib.Algebra.BigOperators.Ring.Finset
import Mathlib.Data.BitVec

/-!
# `GetFolderDiskUsage`

The walk adds up the blocks of everything it comes upon. A file with several links is added when the
first of them is met, and `visited` keeps the others out. Which link is the first depends on the
order in which `readdir` returns the entries, and on when a directory is left for one in it, but all
links of a file have its number of blocks.

The turns for a directory do to the total what adding up the list of its entries does
(`loop_counted`), whatever fails. So the total is a sum over what is there
(`getFolderDiskUsage_usage`), and the order is gone.
-/

namespace CUtils.Directory

open Resource CountOnce

/-! ## Files -/

/-- `pair<dev_t, ino_t>`. -/
abbrev FileId := BitVec 64 × BitVec 64

/-- What `struct stat` says of a file that is the same for all links to it. -/
structure Inode where
  nlink : BitVec 64
  /-- `st_blocks`, which is signed. -/
  blocks : BitVec 64
  deriving DecidableEq, Repr

structure FileStat extends Inode where
  isDir : Bool
  id : FileId
  deriving DecidableEq, Repr

/-- A volume with the files its entries are links to. -/
structure FileTree extends Volume where
  id : Path → FileId
  inode : FileId → Inode
  /-- The paths on which `lstat` and `fstatat` fail. -/
  unstatable : Path → Bool := fun _ => false
  /-- The path leads to a directory, and `root` is what is in it. -/
  isDir : Bool := true

/-- `lstat` and `fstatat`, which do not follow a symbolic link. -/
def FileTree.stat (t : FileTree) (c : Path) (isDir : Bool) : Option FileStat :=
  if t.unstatable c then none else some { t.inode (t.id c) with isDir, id := t.id c }

/-- `STAT_BLOCK_SIZE`. -/
def statBlockSize : BitVec 64 := 512

def getDiskUsageSize (fileStat : Inode) : BitVec 64 :=
  if fileStat.blocks.toInt ≤ 0 then 0 else fileStat.blocks * statBlockSize

/-! ## The walk -/

/-- `totalSize` and `visited`. -/
abbrev Usage := Tally FileId (BitVec 64)

def addDiskUsage (fileStat : FileStat) (s : Usage) : Bool × Usage :=
  if !fileStat.isDir ∧ fileStat.nlink > 1 then
    if fileStat.id ∈ s.visited then (false, s)
    else
      (true,
        { total := s.total + getDiskUsageSize fileStat.toInode
          visited := insert fileStat.id s.visited })
  else (true, { s with total := s.total + getDiskUsageSize fileStat.toInode })

structure UsageWalk where
  usage : Usage
  disk : Disk := {}
  traverseStack : List Dir

section Loop

variable (t : FileTree)

/-- The rest of a turn, once `readdir` has returned `name` from the directory `currentFd`; `sub` is
what is in it, if it is a directory. -/
def UsageWalk.entry (w : UsageWalk) (currentFd : Path) (name : String) (sub : Option Entries) :
    UsageWalk :=
  let subFd := name :: currentFd
  if t.faults.dirfd currentFd then w
  else
    match t.stat subFd sub.isSome with
    | none => w
    | some entryStat =>
        let r := addDiskUsage entryStat w.usage
        let w := { w with usage := r.2 }
        if !r.1 || !entryStat.isDir then w
        else if t.faults.openat subFd then w
        else if t.faults.fdopendir subFd then
          { w with disk := (w.disk.openDir subFd).closeDir subFd }
        else
          { w with
            disk := w.disk.openDir subFd
            traverseStack := ⟨subFd, sub.getD .nil⟩ :: w.traverseStack }

/-- One turn of the loop, where `topNode` has been opened for `p` and is about to return `entries`. -/
def UsageWalk.turn (w : UsageWalk) (p : Path) (rest : List Dir) : Entries → UsageWalk
  | .nil => { w with disk := w.disk.closeDir p, traverseStack := rest }
  | .dots entries => { w with traverseStack := ⟨p, entries⟩ :: rest }
  | .file name entries => { w with traverseStack := ⟨p, entries⟩ :: rest }.entry t p name none
  | .dir name sub entries => { w with traverseStack := ⟨p, entries⟩ :: rest }.entry t p name (some sub)

/-! ### Turns -/

/-- `struct stat` of an entry of the tree. -/
def FileTree.statOf (x : Path × Bool) : FileStat :=
  { t.inode (t.id x.1) with isDir := x.2, id := t.id x.1 }

/-- The entry is added up, once `readdir` has returned it. -/
def FileTree.adds (c : Path) : Bool := !t.faults.dirfd c.tail && !t.unstatable c

/-- It is opened, if it is a directory. -/
def FileTree.enters (c : Path) : Bool :=
  t.adds c && !t.faults.openat c && !t.faults.fdopendir c

/-- What the entry does to the total, if it is added up. -/
def FileTree.sum (x : Path × Bool) (s : Usage) : Usage :=
  if t.adds x.1 then (addDiskUsage (t.statOf x) s).2 else s

theorem entry_file (w : UsageWalk) (p : Path) (name : String) :
    w.entry t p name none = { w with usage := t.sum (name :: p, false) w.usage } := by
  have hadds : t.adds (name :: p) = (!t.faults.dirfd p && !t.unstatable (name :: p)) := rfl
  rw [UsageWalk.entry, FileTree.sum, hadds]
  cases t.faults.dirfd p with
  | true => rfl
  | false =>
      cases h : t.unstatable (name :: p) with
      | true => simp [FileTree.stat, h]
      | false => simp [FileTree.stat, FileTree.statOf, h]

theorem entry_entered {w : UsageWalk} {p : Path} {name : String} (sub : Entries)
    (h : t.enters (name :: p) = true) :
    w.entry t p name (some sub) =
      { usage := t.sum (name :: p, true) w.usage
        disk := w.disk.openDir (name :: p)
        traverseStack := ⟨name :: p, sub⟩ :: w.traverseStack } := by
  obtain ⟨h, hfdopen⟩ := Bool.and_eq_true_iff.1 h
  obtain ⟨hadds, hopenat⟩ := Bool.and_eq_true_iff.1 h
  obtain ⟨hdirfd, hstat⟩ := Bool.and_eq_true_iff.1 hadds
  rw [Bool.not_eq_true'] at hfdopen hopenat hdirfd hstat
  rw [UsageWalk.entry, FileTree.sum, if_pos hadds, show t.faults.dirfd p = false from hdirfd]
  simp [FileTree.stat, FileTree.statOf, addDiskUsage, hstat, hopenat, hfdopen]

/-- A directory that is not opened. -/
theorem entry_refused {w : UsageWalk} {p : Path} {name : String} (sub : Entries)
    (h : t.enters (name :: p) = false) :
    ∃ disk : Disk, w.entry t p name (some sub) =
        { w with usage := t.sum (name :: p, true) w.usage, disk := disk } ∧
      disk.opened = w.disk.opened ∧
      (Orderly t.toVolume w.disk → Orderly t.toVolume disk) := by
  have hadds : t.adds (name :: p) = (!t.faults.dirfd p && !t.unstatable (name :: p)) := rfl
  rw [UsageWalk.entry, FileTree.sum, hadds]
  cases hdirfd : t.faults.dirfd p with
  | true => exact ⟨w.disk, rfl, rfl, id⟩
  | false =>
      cases hstat : t.unstatable (name :: p) with
      | true => exact ⟨w.disk, by simp [FileTree.stat, hstat], rfl, id⟩
      | false =>
          cases hopenat : t.faults.openat (name :: p) with
          | true =>
              refine ⟨w.disk, ?_, rfl, id⟩
              simp [FileTree.stat, FileTree.statOf, addDiskUsage, hstat]
          | false =>
              have hfdopen : t.faults.fdopendir (name :: p) = true := by
                simpa [FileTree.enters, hadds, hdirfd, hstat, hopenat] using h
              refine ⟨(w.disk.openDir (name :: p)).closeDir (name :: p), ?_,
                openDir_closeDir_opened w.disk (name :: p), fun ho => (ho.openDir _).closeDir rfl⟩
              simp [FileTree.stat, FileTree.statOf, addDiskUsage, hstat, hfdopen]

theorem usageTurn_pending (w : UsageWalk) (p : Path) (rest : List Dir) (entries : Entries) :
    pending (w.turn t p rest entries).traverseStack < pending (⟨p, entries⟩ :: rest) := by
  cases entries with
  | nil => simp [UsageWalk.turn, pending, Entries.size]
  | dots entries => simp [UsageWalk.turn, pending, Entries.size]
  | file name entries =>
      rw [UsageWalk.turn, entry_file]
      simp [pending, Entries.size]
  | dir name sub entries =>
      rw [UsageWalk.turn]
      cases h : t.enters (name :: p) with
      | true =>
          rw [entry_entered t sub h]
          simp only [pending, List.map_cons, List.sum_cons, Entries.size]
          omega
      | false =>
          obtain ⟨disk, hrun, -⟩ := entry_refused t sub h
          rw [hrun]
          simp only [pending, List.map_cons, List.sum_cons, Entries.size]
          omega

/-! ### The loop -/

def UsageWalk.loop (w : UsageWalk) : UsageWalk :=
  match _ : w.traverseStack with
  | [] => w
  | topNode :: rest => (w.turn t topNode.path rest topNode.entries).loop
termination_by pending w.traverseStack
decreasing_by
  rw [‹w.traverseStack = _›]
  exact usageTurn_pending t w topNode.path rest topNode.entries

def traverseDirectoryDiskUsage (rootStat : FileStat) : UsageWalk :=
  UsageWalk.loop t
    { usage := (addDiskUsage rootStat ⟨0, ∅⟩).2
      disk := Disk.openDir {} []
      traverseStack := [⟨[], t.root⟩] }

/-- The result, and what has been opened and closed. -/
def getFolderDiskUsage : BitVec 64 × Disk :=
  match t.stat [] t.isDir with
  | none => (0, {})
  | some statbuf =>
      if !statbuf.isDir then (getDiskUsageSize statbuf.toInode, {})
      else if t.faults.openat [] then (0, {})
      else if t.faults.fdopendir [] then (0, (Disk.openDir {} []).closeDir [])
      else
        let w := traverseDirectoryDiskUsage t statbuf
        (w.usage.total, w.disk)

end Loop

/-! ## The turns for a directory -/

section Visit

variable {t : FileTree} {w w₁ w₂ : UsageWalk} {p : Path} {es : Entries} {rest : List Dir}
  {ps : List Path} {l l' : List (Path × Bool)}

/-- The entries of `p` and of the directories that are opened below it. -/
def listed (t : FileTree) (p : Path) : Entries → List (Path × Bool)
  | .nil => []
  | .dots rest => listed t p rest
  | .file name rest => (name :: p, false) :: listed t p rest
  | .dir name sub rest =>
      (name :: p, true) ::
        ((if t.enters (name :: p) then listed t (name :: p) sub else []) ++ listed t p rest)

/-- The directory on top has been taken from the stack, and `l` has been added up. -/
structure Summed (t : FileTree) (l : List (Path × Bool)) (rest : List Dir) (ps : List Path)
    (w w' : UsageWalk) : Prop where
  usage : w'.usage = l.foldl (fun s x => t.sum x s) w.usage
  orderly : Orderly t.toVolume w.disk → Orderly t.toVolume w'.disk
  stack : w'.traverseStack = rest
  opened : w'.disk.opened = ps

theorem usageLoop_of_stack (hstack : w.traverseStack = ⟨p, es⟩ :: rest) :
    w.loop t = (w.turn t p rest es).loop t := by
  rw [UsageWalk.loop]
  split
  · rename_i hnil
    rw [hstack] at hnil
    cases hnil
  · rename_i hcons
    rw [hstack] at hcons
    cases hcons
    rfl

/-- More is added up before. -/
theorem Summed.after (h : Summed t l' rest ps w₁ w₂)
    (husage : w₁.usage = l.foldl (fun s x => t.sum x s) w.usage)
    (horderly : Orderly t.toVolume w.disk → Orderly t.toVolume w₁.disk) :
    Summed t (l ++ l') rest ps w w₂ :=
  ⟨by rw [h.usage, husage, List.foldl_append], fun ho => h.orderly (horderly ho), h.stack, h.opened⟩

/-- **The turns for a directory**, by induction on its entries. -/
theorem loop_summed (hstack : w.traverseStack = ⟨p, es⟩ :: rest) (hopened : w.disk.opened = p :: ps) :
    ∃ w', w.loop t = w'.loop t ∧ Summed t (listed t p es) rest ps w w' := by
  induction es generalizing p w rest ps with
  | nil =>
      refine ⟨_, usageLoop_of_stack hstack, rfl, fun ho => ho.closeDir hopened, rfl, ?_⟩
      simp [UsageWalk.turn, Disk.closeDir, hopened]
  | dots es ih =>
      rw [usageLoop_of_stack hstack]
      obtain ⟨w', hw', hsummed⟩ := ih (w := w.turn t p rest (.dots es)) rfl hopened
      exact ⟨w', hw', hsummed.after (l := []) rfl id⟩
  | file name es ih =>
      rw [usageLoop_of_stack hstack, UsageWalk.turn, entry_file]
      obtain ⟨w', hw', hsummed⟩ := ih (w := { w with
        usage := t.sum (name :: p, false) w.usage, traverseStack := ⟨p, es⟩ :: rest }) rfl hopened
      exact ⟨w', hw', hsummed.after (l := [(name :: p, false)]) rfl id⟩
  | dir name sub es ihsub ih =>
      rw [usageLoop_of_stack hstack, UsageWalk.turn, listed]
      cases h : t.enters (name :: p) with
      | false =>
          obtain ⟨disk, hrun, hdisk, horderly⟩ := entry_refused
            (w := { w with traverseStack := ⟨p, es⟩ :: rest }) t sub h
          rw [hrun]
          obtain ⟨w', hw', hsummed⟩ := ih (w := { w with
            usage := t.sum (name :: p, true) w.usage, disk := disk
            traverseStack := ⟨p, es⟩ :: rest }) rfl (hdisk.trans hopened)
          exact ⟨w', hw', hsummed.after (l := [(name :: p, true)]) rfl horderly⟩
      | true =>
          rw [entry_entered t sub h]
          -- down, and back to the parent
          obtain ⟨w₁, hw₁, hbelow⟩ := ihsub (p := name :: p) (w :=
            { usage := t.sum (name :: p, true) w.usage
              disk := w.disk.openDir (name :: p)
              traverseStack := ⟨name :: p, sub⟩ :: ⟨p, es⟩ :: rest })
            rfl (show (name :: p) :: w.disk.opened = (name :: p) :: p :: ps by rw [hopened])
          obtain ⟨w', hw', hsummed⟩ := ih hbelow.stack hbelow.opened
          refine ⟨w', hw₁.trans hw', ?_⟩
          exact (hsummed.after hbelow.usage hbelow.orderly).after (l := [(name :: p, true)]) rfl
            fun ho => ho.openDir _

end Visit

/-! ## What is added up -/

section Sums

variable (t : FileTree)

/-- Files with several links are added once. -/
def FileTree.key (x : Path × Bool) : Option FileId :=
  if x.2 = false ∧ (t.inode (t.id x.1)).nlink > 1 then some (t.id x.1) else none

def FileTree.weight (x : Path × Bool) : BitVec 64 := getDiskUsageSize (t.inode (t.id x.1))

theorem addDiskUsage_statOf (x : Path × Bool) (s : Usage) :
    (addDiskUsage (t.statOf x) s).2 = s.add t.key t.weight x := by
  have hkey : (!(t.statOf x).isDir) = true ∧ (t.statOf x).nlink > 1 ↔
      x.2 = false ∧ (t.inode (t.id x.1)).nlink > 1 := by
    rw [Bool.not_eq_true']
    rfl
  rw [addDiskUsage]
  by_cases h : x.2 = false ∧ (t.inode (t.id x.1)).nlink > 1
  · have hsome : t.key x = some (t.id x.1) := if_pos h
    rw [if_pos (hkey.2 h)]
    by_cases hvisited : t.id x.1 ∈ s.visited
    · rw [add_visited hsome hvisited]
      exact congrArg Prod.snd (if_pos hvisited)
    · rw [add_fresh hsome hvisited]
      exact congrArg Prod.snd (if_neg hvisited)
  · have hnone : t.key x = none := if_neg h
    rw [if_neg fun h' => h (hkey.1 h'), add_unkeyed hnone]
    rfl

theorem foldl_sum (l : List (Path × Bool)) (s : Usage) :
    l.foldl (fun s x => t.sum x s) s =
      (l.filter fun x => t.adds x.1).foldl (Tally.add t.key t.weight) s := by
  rw [List.foldl_filter]
  refine List.foldl_ext _ _ _ fun s x _ => ?_
  rw [FileTree.sum, addDiskUsage_statOf]

theorem weight_of_key (x : Path × Bool) :
    ∀ i ∈ t.key x, t.weight x = getDiskUsageSize (t.inode i) := by
  intro i hi
  obtain ⟨-, heq⟩ := Option.ite_none_right_eq_some.1 hi
  rw [FileTree.weight, Option.some.inj heq]

end Sums

/-- **The walk**, whatever fails: it adds up the entries it comes upon, and closes what it has
opened. -/
theorem traverseDirectoryDiskUsage_spec (t : FileTree) :
    let w := traverseDirectoryDiskUsage t (t.statOf ([], true))
    let l := (listed t [] t.root).filter fun x => t.adds x.1
    w.usage.total = t.weight ([], true) + ((unkeyed t.key l).map t.weight).sum +
        ∑ i ∈ keys t.key l, getDiskUsageSize (t.inode i) ∧
      Settled (w.disk.log.flatMap Call.deals) := by
  intro w l
  obtain ⟨w', hw, hsummed⟩ := loop_summed (t := t) (w :=
    { usage := (addDiskUsage (t.statOf ([], true)) ⟨0, ∅⟩).2
      disk := Disk.openDir {} []
      traverseStack := [⟨[], t.root⟩] }) rfl rfl
  have hend : w = w' := by
    refine hw.trans ?_
    rw [UsageWalk.loop]
    split
    · rfl
    · rename_i hstack
      rw [hsummed.stack] at hstack
      cases hstack
  have hroot : (addDiskUsage (t.statOf ([], true)) ⟨0, ∅⟩).2 = ⟨t.weight ([], true), ∅⟩ := by
    have hnone : t.key ([], true) = none := if_neg fun h => Bool.noConfusion h.1
    rw [addDiskUsage_statOf, add_unkeyed hnone, zero_add]
  rw [hend]
  refine ⟨?_, (hsummed.orderly ((Orderly.start _).openDir [])).settled hsummed.opened⟩
  rw [hsummed.usage, hroot, foldl_sum, foldl_add _ _ (weight_of_key t), Finset.sdiff_empty]

/-- Whatever fails, everything that has been opened is closed. -/
theorem getFolderDiskUsage_settled (t : FileTree) :
    Settled ((getFolderDiskUsage t).2.log.flatMap Call.deals) := by
  rw [getFolderDiskUsage, FileTree.stat]
  cases t.unstatable [] with
  | true => rfl
  | false =>
      cases t.isDir with
      | false => rfl
      | true =>
          cases t.faults.openat [] with
          | true => rfl
          | false =>
              cases t.faults.fdopendir [] with
              | true => rfl
              | false => exact (traverseDirectoryDiskUsage_spec t).2

/-! ## The result -/

/-- Every entry can be looked at, and every directory can be opened. -/
structure FileTree.Readable (t : FileTree) : Prop where
  isDir : t.isDir = true
  statable : ∀ c, c = [] ∨ c ∈ t.paths → t.unstatable c = false
  openable : ∀ c, c = [] ∨ (c, true) ∈ t.root.marked [] →
    t.faults.dirfd c = false ∧ t.faults.openat c = false ∧ t.faults.fdopendir c = false

/-- `max(st_blocks, 0) * 512`. -/
def Inode.bytes (i : Inode) : Nat := (max i.blocks.toInt 0).toNat * 512

/-- What is in the tree, below its root. -/
def FileTree.entries (t : FileTree) : Finset (Path × Bool) := (t.root.marked []).toFinset

/-- The files with several links. -/
def FileTree.linked (t : FileTree) : Finset FileId :=
  (t.entries.filter fun x => x.2 = false ∧ (t.inode (t.id x.1)).nlink > 1).image fun x => t.id x.1

/-- The root, the directories, the files with one link, and each file with several links once. -/
def FileTree.diskUsage (t : FileTree) : Nat :=
  (t.inode (t.id [])).bytes +
    ∑ x ∈ t.entries with x.2 = true ∨ (t.inode (t.id x.1)).nlink ≤ 1, (t.inode (t.id x.1)).bytes +
    ∑ i ∈ t.linked, (t.inode i).bytes

theorem getDiskUsageSize_eq (i : Inode) : getDiskUsageSize i = (i.bytes : BitVec 64) := by
  rw [getDiskUsageSize, Inode.bytes]
  split
  · rename_i hle
    rw [max_eq_right hle]
    rfl
  · rename_i hgt
    have hpos : 0 < i.blocks.toInt := Int.lt_of_not_ge hgt
    rw [max_eq_left hpos.le]
    have hcond := BitVec.toInt_eq_toNat_cond i.blocks
    have hnat : i.blocks.toInt.toNat = i.blocks.toNat := by
      have hlt := i.blocks.isLt
      split at hcond <;> omega
    rw [hnat]
    refine BitVec.eq_of_toNat_eq ?_
    rw [BitVec.toNat_mul, BitVec.natCast_eq_ofNat, BitVec.toNat_ofNat]
    rfl

section Readable

variable {t : FileTree}

theorem FileTree.Readable.adds (ht : t.Readable) {c : Path} (hc : c ∈ t.paths) :
    t.adds c = true := by
  obtain ⟨b, hb⟩ := Entries.exists_marked.1 hc
  have hdirfd := (ht.openable c.tail (Entries.tail_mem_marked hb)).1
  rw [FileTree.adds, hdirfd, ht.statable c (Or.inr hc)]
  rfl

theorem FileTree.Readable.enters (ht : t.Readable) {c : Path} (hc : (c, true) ∈ t.root.marked []) :
    t.enters c = true := by
  obtain ⟨-, hopenat, hfdopen⟩ := ht.openable c (Or.inr hc)
  rw [FileTree.enters, ht.adds (Entries.exists_marked.2 ⟨true, hc⟩), hopenat, hfdopen]
  rfl

/-- If every directory is opened, all of the tree is listed. -/
theorem listed_eq {p : Path} {es : Entries} (h : ∀ c, (c, true) ∈ es.marked p → t.enters c = true) :
    listed t p es = es.marked p := by
  induction es generalizing p with
  | nil => rfl
  | dots rest ih => exact ih h
  | file name rest ih =>
      rw [listed, Entries.marked, ih fun c hc => h c (List.mem_cons_of_mem _ hc)]
  | dir name sub rest ihsub ih =>
      rw [listed, Entries.marked, if_pos (h _ (List.mem_cons_self ..)),
        ihsub fun c hc => h c (List.mem_cons_of_mem _ (List.mem_append_left _ hc)),
        ih fun c hc => h c (List.mem_cons_of_mem _ (List.mem_append_right _ hc))]

/-- What is added up in a readable tree. -/
theorem FileTree.Readable.total (ht : t.Readable) :
    (traverseDirectoryDiskUsage t (t.statOf ([], true))).usage.total = (t.diskUsage : BitVec 64) := by
  have hall : (listed t [] t.root).filter (fun x => t.adds x.1) = t.root.marked [] := by
    rw [listed_eq fun c hc => ht.enters hc]
    exact List.filter_eq_self.2 fun x hx => ht.adds (Entries.exists_marked.2 ⟨x.2, hx⟩)
  have hnodup : (t.root.marked []).Nodup := by
    refine List.Nodup.of_map Prod.fst ?_
    rw [Entries.map_marked]
    exact t.distinct
  have hkey : ∀ x, t.key x = none ↔ x.2 = true ∨ (t.inode (t.id x.1)).nlink ≤ 1 := fun x => by
    simp only [FileTree.key, ite_eq_right_iff, reduceCtorEq, imp_false, not_and_or,
      Bool.not_eq_false, gt_iff_lt, BitVec.not_lt]
  have hunkeyed : ((unkeyed t.key (t.root.marked [])).map t.weight).sum =
      ∑ x ∈ t.entries with x.2 = true ∨ (t.inode (t.id x.1)).nlink ≤ 1,
        getDiskUsageSize (t.inode (t.id x.1)) := by
    rw [sum_unkeyed _ _ hnodup]
    simp only [hkey]
    rfl
  have hlinked : keys t.key (t.root.marked []) = t.linked := by
    ext i
    simp only [mem_keys, FileTree.linked, FileTree.entries, FileTree.key, List.mem_toFinset,
      Finset.mem_image, Finset.mem_filter, Option.ite_none_right_eq_some, Option.some.injEq, and_assoc]
  rw [(traverseDirectoryDiskUsage_spec t).1, hall, hunkeyed, hlinked, FileTree.diskUsage,
    Nat.cast_add, Nat.cast_add, Nat.cast_sum, Nat.cast_sum, FileTree.weight]
  simp only [getDiskUsageSize_eq]

end Readable

/-- The same files under the same paths, in whatever order `readdir` returns them. -/
structure FileTree.SameFiles (t t' : FileTree) : Prop where
  entries : ∀ x, x ∈ t'.root.marked [] ↔ x ∈ t.root.marked []
  id : t'.id = t.id
  inode : t'.inode = t.inode

theorem getFolderDiskUsage_readable {t : FileTree} (ht : t.Readable) :
    getFolderDiskUsage t =
      let w := traverseDirectoryDiskUsage t (t.statOf ([], true))
      (w.usage.total, w.disk) := by
  obtain ⟨-, hopenat, hfdopen⟩ := ht.openable [] (Or.inl rfl)
  rw [getFolderDiskUsage, FileTree.stat, ht.statable [] (Or.inl rfl), ht.isDir, hopenat, hfdopen]
  rfl

/-- **The disk usage of a folder**: every directory, every file, and no file twice. The order in which
`readdir` returns the entries makes no difference. -/
theorem getFolderDiskUsage_eq {t : FileTree} (ht : t.Readable) :
    (getFolderDiskUsage t).1.toNat = t.diskUsage % 2 ^ 64 ∧
      ∀ t' : FileTree, t'.Readable → t.SameFiles t' →
        (getFolderDiskUsage t').1 = (getFolderDiskUsage t).1 := by
  have htotal : ∀ {t : FileTree}, t.Readable →
      (getFolderDiskUsage t).1 = (t.diskUsage : BitVec 64) := fun h => by
    rw [getFolderDiskUsage_readable h]
    exact h.total
  refine ⟨by rw [htotal ht, BitVec.natCast_eq_ofNat, BitVec.toNat_ofNat], fun t' ht' hsame => ?_⟩
  have hentries : t'.entries = t.entries := by
    ext x
    rw [FileTree.entries, FileTree.entries, List.mem_toFinset, List.mem_toFinset]
    exact hsame.entries x
  rw [htotal ht', htotal ht, FileTree.diskUsage, FileTree.diskUsage, FileTree.linked,
    FileTree.linked, hentries, hsame.id, hsame.inode]

/-- One file under two names, which the walks meet in different directories. -/
theorem getFolderDiskUsage_eq_linked :
    let id : Path → FileId := fun c => if c = [] then (1, 1) else if c = ["d"] then (1, 2) else (1, 3)
    let t : FileTree :=
      { root := .file "a" (.dir "d" (.file "b" .nil) .nil), id, inode := fun _ => ⟨2, 8⟩ }
    let t' : FileTree :=
      { root := .dir "d" (.file "b" .nil) (.file "a" .nil), id, inode := fun _ => ⟨2, 8⟩ }
    t.diskUsage = 3 * 4096 ∧ (getFolderDiskUsage t).1.toNat = t.diskUsage % 2 ^ 64 ∧
      (getFolderDiskUsage t').1 = (getFolderDiskUsage t).1 := by
  intro id t t'
  have ht : t.Readable := ⟨rfl, fun _ _ => rfl, fun _ _ => ⟨rfl, rfl, rfl⟩⟩
  have ht' : t'.Readable := ⟨rfl, fun _ _ => rfl, fun _ _ => ⟨rfl, rfl, rfl⟩⟩
  have hsame : t.SameFiles t' := by
    refine ⟨fun x => ?_, rfl, rfl⟩
    simp only [t, t', Entries.marked, List.mem_cons, List.append_nil, List.cons_append,
      List.nil_append, List.not_mem_nil, or_false]
    tauto
  obtain ⟨hvalue, horder⟩ := getFolderDiskUsage_eq ht
  exact ⟨by decide +kernel, hvalue, horder t' ht' hsame⟩

end CUtils.Directory
