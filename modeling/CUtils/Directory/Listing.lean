import CUtils.Directory.Calls
import CUtils.Directory.Spelling
import Mathlib.Data.List.Nodup
import Mathlib.Algebra.GroupWithZero.Nat

/-!
# `GetDirFiles`

The walk goes down into a directory as soon as it has read it and comes back when that directory has
been read to its end, so there is one stack and it holds the way from the root to where the walk is.
A directory that cannot be opened is passed over.

One turn of the loop is one call of `readdir`. The turns for a directory, from the moment it is on
top until it has been taken from the stack, do what the recursion over its entries says
(`loop_visited`): the strings for the files in it come after those there were, and `currentPath`
belongs to the parent again.
-/

namespace CUtils.Directory

open Resource Delimiter

/-! ## The walk -/

def Entries.size : Entries → Nat
  | nil => 0
  | dots rest | file _ rest => 1 + rest.size
  | dir _ sub rest => 2 + sub.size + rest.size

structure Listed where
  files : List Str
  disk : Disk := {}
  /-- The directories that have been opened for reading. -/
  read : List Path := []

structure Traversal extends Listed where
  traverseStack : List Dir
  currentPath : Str

/-- What is still to be read. -/
def pending (stack : List Dir) : Nat := (stack.map fun x => 1 + x.entries.size).sum

section Loop

variable (v : Volume)

/-- One turn of the loop, where `topNode` has been opened for `p` and is about to return `entries`. -/
def Traversal.turn (w : Traversal) (p : Path) (rest : List Dir) : Entries → Traversal
  | .nil =>
      { w with
        disk := w.disk.closeDir p
        traverseStack := rest
        currentPath := cutLast w.currentPath }
  | .dots entries => { w with traverseStack := ⟨p, entries⟩ :: rest }
  | .dir name sub entries =>
      let w := { w with traverseStack := ⟨p, entries⟩ :: rest }
      let subFd := name :: p
      if v.faults.dirfd p then w
      else if v.faults.openat subFd then w
      else if v.faults.fdopendir subFd then
        { w with disk := (w.disk.openDir subFd).closeDir subFd }
      else
        { w with
          disk := w.disk.openDir subFd
          read := subFd :: w.read
          traverseStack := ⟨subFd, sub⟩ :: w.traverseStack
          currentPath := includeTrailingPathDelimiter w.currentPath ++ name.toList }
  | .file name entries =>
      { w with
        traverseStack := ⟨p, entries⟩ :: rest
        files := w.files ++ [includeTrailingPathDelimiter w.currentPath ++ name.toList] }

theorem turn_pending (w : Traversal) (p : Path) (rest : List Dir) (entries : Entries) :
    pending (w.turn v p rest entries).traverseStack < pending (⟨p, entries⟩ :: rest) := by
  cases entries with
  | nil => simp [Traversal.turn, pending, Entries.size]
  | dots entries => simp [Traversal.turn, pending, Entries.size]
  | file name entries => simp [Traversal.turn, pending, Entries.size]
  | dir name sub entries =>
      simp only [Traversal.turn]
      split
      · simp only [pending, List.map_cons, List.sum_cons, Entries.size]
        omega
      · split
        · simp only [pending, List.map_cons, List.sum_cons, Entries.size]
          omega
        · split
          · simp only [pending, List.map_cons, List.sum_cons, Entries.size]
            omega
          · simp only [pending, List.map_cons, List.sum_cons, Entries.size]
            omega

def Traversal.loop (w : Traversal) : Traversal :=
  match _ : w.traverseStack with
  | [] => w
  | topNode :: rest => (w.turn v topNode.path rest topNode.entries).loop
termination_by pending w.traverseStack
decreasing_by
  rw [‹w.traverseStack = _›]
  exact turn_pending v w topNode.path rest topNode.entries

def getDirFiles (path : Str) (files : List Str) : Listed :=
  if v.faults.opendir then { files }
  else
    (Traversal.loop v
      { files
        disk := Disk.openDir {} []
        read := [[]]
        traverseStack := [⟨[], v.root⟩]
        currentPath := excludeTrailingPathDelimiter path }).toListed

def isEmptyFolder (path : Str) : Bool := (getDirFiles v path []).files.isEmpty

end Loop

/-! ## What is seen -/

/-- The directory is opened, once `readdir` has returned it. -/
def Faults.takes (f : Faults) (q : Path) : Bool := !f.dirfd q.tail && !f.openat q

/-- It is opened for reading. -/
def Faults.enters (f : Faults) (q : Path) : Bool := f.takes q && !f.fdopendir q

/-- The entries of `p` and of the directories that are opened for reading below it, in the order in
which `readdir` returns them. -/
def seen (f : Faults) (p : Path) : Entries → List (Path × Bool)
  | .nil => []
  | .dots rest => seen f p rest
  | .file name rest => (name :: p, false) :: seen f p rest
  | .dir name sub rest =>
      (name :: p, true) ::
        ((if f.enters (name :: p) then seen f (name :: p) sub else []) ++ seen f p rest)

/-- The paths of the sort, among those with the flag. -/
def pick (b : Bool) (want : Path → Bool) (l : List (Path × Bool)) : List Path :=
  (l.filter fun x => x.2 == b && want x.1).map Prod.fst

section Pick

variable {b : Bool} {want : Path → Bool} {c : Path} {l l' : List (Path × Bool)}

theorem mem_pick : c ∈ pick b want l ↔ (c, b) ∈ l ∧ want c = true := by
  simp [pick]

theorem pick_append : pick b want (l ++ l') = pick b want l ++ pick b want l' := by
  simp [pick]

theorem pick_cons_same : pick b want ((c, b) :: l) =
    (if want c then [c] else []) ++ pick b want l := by
  cases h : want c <;> simp [pick, h]

theorem pick_sublist : (pick b want l).Sublist (l.map Prod.fst) :=
  (List.filter_sublist ..).map Prod.fst

end Pick

variable {f : Faults} {p c : Path} {es : Entries} {b : Bool}

theorem seen_sublist : (seen f p es).Sublist (es.marked p) := by
  induction es generalizing p with
  | nil => exact List.Sublist.refl _
  | dots rest ih => exact ih
  | file name rest ih => exact ih.cons_cons _
  | dir name sub rest ihsub ih =>
      rw [seen, Entries.marked]
      refine List.Sublist.cons_cons _ (List.Sublist.append ?_ ih)
      split
      · exact ihsub
      · exact List.nil_sublist _

theorem pick_seen_sublist {want : Path → Bool} : (pick b want (seen f p es)).Sublist (es.paths p) := by
  rw [← Entries.map_marked]
  exact pick_sublist.trans (seen_sublist.map Prod.fst)

theorem Entries.suffix_of_mem_marked (h : (c, b) ∈ es.marked p) : p <:+ c.tail := by
  induction es generalizing p with
  | nil => exact absurd h (by simp [marked])
  | dots rest ih => exact ih h
  | file name rest ih =>
      rcases List.mem_cons.1 h with heq | h
      · obtain ⟨rfl, rfl⟩ := Prod.mk.inj heq
        exact List.suffix_refl p
      · exact ih h
  | dir name sub rest ihsub ih =>
      rcases List.mem_cons.1 h with heq | h
      · obtain ⟨rfl, rfl⟩ := Prod.mk.inj heq
        exact List.suffix_refl p
      · rcases List.mem_append.1 h with h | h
        · exact (List.suffix_cons name p).trans (ihsub h)
        · exact ih h

/-- Every directory between `p` and the entry is opened for reading. -/
def Reached (f : Faults) (p c : Path) : Prop :=
  ∀ q, q <:+ c.tail → p <:+ q → q ≠ p → f.enters q = true

theorem reached_entry (f : Faults) (name : String) (p : Path) : Reached f p (name :: p) :=
  fun _ hq hpq hne => absurd (List.IsSuffix.eq_of_length_le hq hpq.length_le) hne

theorem reached_sub {name : String} (h : name :: p <:+ c.tail) :
    Reached f p c ↔ f.enters (name :: p) = true ∧ Reached f (name :: p) c := by
  constructor
  · intro hc
    refine ⟨hc _ h (List.suffix_cons name p) (by simp), fun q hq hpq hne => ?_⟩
    refine hc q hq ((List.suffix_cons name p).trans hpq) ?_
    rintro rfl
    have hle := hpq.length_le
    rw [List.length_cons] at hle
    omega
  · rintro ⟨hname, hc⟩ q hq hpq hne
    rcases List.suffix_or_suffix_of_suffix hq h with hqn | hnq
    · rcases List.suffix_cons_iff.1 hqn with rfl | hqp
      · exact hname
      · exact absurd (hqp.eq_of_length_le hpq.length_le) hne
    · by_cases heq : q = name :: p
      · rw [heq]
        exact hname
      · exact hc q hq hnq heq

/-- **What is seen**: the entries to which every directory on the way has been opened. -/
theorem mem_seen : (c, b) ∈ seen f p es ↔ (c, b) ∈ es.marked p ∧ Reached f p c := by
  have hhere : ∀ {p : Path} {name : String} {b' : Bool}, (c, b) = (name :: p, b') → Reached f p c := by
    intro p name b' heq
    obtain ⟨rfl, -⟩ := Prod.mk.inj heq
    exact reached_entry f name p
  induction es generalizing p with
  | nil => simp [seen, Entries.marked]
  | dots rest ih => exact ih
  | file name rest ih =>
      have hrest : (c, b) ∈ seen f p rest ↔ (c, b) ∈ rest.marked p ∧ Reached f p c := ih
      rw [seen, Entries.marked, List.mem_cons, List.mem_cons, hrest, or_and_right]
      exact or_congr_left (and_iff_left_of_imp hhere).symm
  | dir name sub rest ihsub ih =>
      have hrest : (c, b) ∈ seen f p rest ↔ (c, b) ∈ rest.marked p ∧ Reached f p c := ih
      have hbelow : (c, b) ∈ seen f (name :: p) sub ↔
          (c, b) ∈ sub.marked (name :: p) ∧ Reached f (name :: p) c := ihsub
      have hsub : (c, b) ∈ (if f.enters (name :: p) then seen f (name :: p) sub else []) ↔
          (c, b) ∈ sub.marked (name :: p) ∧ Reached f p c := by
        have hiff : (c, b) ∈ sub.marked (name :: p) →
            (Reached f p c ↔ f.enters (name :: p) = true ∧ Reached f (name :: p) c) :=
          fun hc => reached_sub (Entries.suffix_of_mem_marked hc)
        rw [and_congr_right hiff, ← and_left_comm, ← hbelow]
        by_cases henter : f.enters (name :: p) = true
        · rw [if_pos henter, and_iff_right henter]
        · rw [if_neg henter]
          exact iff_of_false (by simp) fun h => henter h.1
      rw [seen, Entries.marked, List.mem_cons, List.mem_cons, List.mem_append, List.mem_append,
        hrest, hsub, or_and_right, or_and_right]
      exact or_congr_left (and_iff_left_of_imp hhere).symm

/-- An entry is reached if its directory is `p`, or is seen and opened for reading. -/
theorem reached_iff (h : (c, b) ∈ es.marked p) :
    Reached f p c ↔ c.tail = p ∨ ((c.tail, true) ∈ seen f p es ∧ f.enters c.tail = true) := by
  rw [mem_seen]
  constructor
  · intro hc
    refine (Entries.tail_mem_marked h).imp_right fun htail => ?_
    have hne : c.tail ≠ p := by
      intro heq
      have hlen := (Entries.suffix_of_mem_marked htail).length_le
      have hlt := Entries.length_of_mem_paths (Entries.exists_marked.2 ⟨_, htail⟩)
      rw [heq] at hlt
      omega
    refine ⟨⟨htail, fun q hq => hc q (hq.trans (List.tail_suffix _))⟩, ?_⟩
    exact hc _ (List.suffix_refl _) (Entries.suffix_of_mem_marked h) hne
  · rintro (heq | ⟨⟨-, hreached⟩, henter⟩) q hq hpq hne
    · rw [heq] at hq
      exact absurd (hq.eq_of_length_le hpq.length_le) hne
    · cases htail : c.tail with
      | nil =>
          rw [htail] at hq henter
          rw [List.suffix_nil.1 hq]
          exact henter
      | cons a t =>
          rw [htail] at hq henter hreached
          rcases List.suffix_cons_iff.1 hq with rfl | hq
          · exact henter
          · exact hreached q hq hpq hne

/-! ## The turns for a directory -/

def Call.opens : Call → Option Path
  | opened dir => some dir
  | _ => none

/-- The directories that have been opened, the last one first. -/
def openedIn (log : List Call) : List Path := log.filterMap Call.opens

/-- What the entries `l` add: strings for the files, and directories that are opened. -/
structure Gains (f : Faults) (root : Str) (l : List (Path × Bool)) (w w' : Traversal) : Prop where
  files : ∃ new, w'.files = w.files ++ new ∧
    List.Forall₂ (fun s c => Similar '/' s (spelled root c)) new (pick false (fun _ => true) l)
  read : w'.read = (pick true f.enters l).reverse ++ w.read
  taken : openedIn w'.disk.log = (pick true f.takes l).reverse ++ openedIn w.disk.log

/-- The directory `p`, in which `l` was to be seen, has been taken from the stack. -/
structure Visited (v : Volume) (root : Str) (l : List (Path × Bool)) (p : Path) (rest : List Dir)
    (ps : List Path) (w w' : Traversal) : Prop where
  gains : Gains v.faults root l w w'
  orderly : Orderly v w.disk → Orderly v w'.disk
  stack : w'.traverseStack = rest
  current : ∃ c, Matches root c p ∧ w'.currentPath = cutLast c
  opened : w'.disk.opened = ps

section Visit

variable {v : Volume} {root : Str} {l l' : List (Path × Bool)} {w w₁ w₂ : Traversal}
  {rest : List Dir} {ps : List Path} {name : String}

theorem Gains.nil (hfiles : w₁.files = w.files) (hread : w₁.read = w.read)
    (hlog : openedIn w₁.disk.log = openedIn w.disk.log) : Gains f root [] w w₁ :=
  ⟨⟨[], by rw [hfiles, List.append_nil], List.Forall₂.nil⟩, hread, hlog⟩

theorem Gains.trans (h : Gains f root l w w₁) (h' : Gains f root l' w₁ w₂) :
    Gains f root (l ++ l') w w₂ := by
  obtain ⟨new, hnew, hall⟩ := h.files
  obtain ⟨new', hnew', hall'⟩ := h'.files
  refine ⟨⟨new ++ new', ?_, ?_⟩, ?_, ?_⟩
  · rw [hnew', hnew, List.append_assoc]
  · rw [pick_append]
    exact List.rel_append hall hall'
  · rw [h'.read, h.read, pick_append, List.reverse_append, List.append_assoc]
  · rw [h'.taken, h.taken, pick_append, List.reverse_append, List.append_assoc]

/-- A directory that is not opened for reading. -/
theorem Gains.refused {c : Path} (henter : f.enters c = false) (hfiles : w₁.files = w.files)
    (hread : w₁.read = w.read)
    (hlog : openedIn w₁.disk.log = (if f.takes c then [c] else []) ++ openedIn w.disk.log) :
    Gains f root [(c, true)] w w₁ := by
  refine ⟨⟨[], by rw [hfiles, List.append_nil], List.Forall₂.nil⟩, ?_, ?_⟩
  · rw [pick_cons_same, henter, hread]
    rfl
  · rw [pick_cons_same, hlog]
    cases f.takes c <;> rfl

/-- More is done before. -/
theorem Visited.after (h : Visited v root l' p rest ps w₁ w₂) (hgains : Gains v.faults root l w w₁)
    (horderly : Orderly v w.disk → Orderly v w₁.disk) :
    Visited v root (l ++ l') p rest ps w w₂ :=
  ⟨hgains.trans h.gains, fun ho => h.orderly (horderly ho), h.stack, h.current, h.opened⟩

theorem loop_of_stack (hstack : w.traverseStack = ⟨p, es⟩ :: rest) :
    w.loop v = (w.turn v p rest es).loop v := by
  rw [Traversal.loop]
  split
  · rename_i hnil
    rw [hstack] at hnil
    cases hnil
  · rename_i hcons
    rw [hstack] at hcons
    cases hcons
    rfl

/-- A turn for a directory that is not opened for reading. -/
theorem turn_refused (henter : v.faults.enters (name :: p) = false)
    (hopened : w.disk.opened = p :: ps) (root : Str) (rest : List Dir) (sub es : Entries) :
    let w₁ := w.turn v p rest (.dir name sub es)
    w₁.traverseStack = ⟨p, es⟩ :: rest ∧ w₁.currentPath = w.currentPath ∧
      w₁.disk.opened = p :: ps ∧ (Orderly v w.disk → Orderly v w₁.disk) ∧
      Gains v.faults root [(name :: p, true)] w w₁ := by
  have htakes : v.faults.takes (name :: p) = (!v.faults.dirfd p && !v.faults.openat (name :: p)) := rfl
  rw [Traversal.turn]
  cases hdirfd : v.faults.dirfd p with
  | true =>
      refine ⟨rfl, rfl, hopened, id, .refused henter rfl rfl ?_⟩
      rw [htakes, hdirfd]
      rfl
  | false =>
      cases hopenat : v.faults.openat (name :: p) with
      | true =>
          refine ⟨rfl, rfl, hopened, id, .refused henter rfl rfl ?_⟩
          rw [htakes, hdirfd, hopenat]
          rfl
      | false =>
          have hfdopen : v.faults.fdopendir (name :: p) = true := by
            simpa [Faults.enters, htakes, hdirfd, hopenat] using henter
          rw [hfdopen]
          refine ⟨rfl, rfl, ?_, fun ho => (ho.openDir _).closeDir rfl, .refused henter rfl rfl ?_⟩
          · exact (openDir_closeDir_opened w.disk (name :: p)).trans hopened
          · rw [htakes, hdirfd, hopenat]
            rfl

/-- A turn that goes down into a directory. -/
theorem turn_entered {sub : Entries} (henter : v.faults.enters (name :: p) = true) :
    w.turn v p rest (.dir name sub es) =
      { w with
        disk := w.disk.openDir (name :: p)
        read := (name :: p) :: w.read
        traverseStack := ⟨name :: p, sub⟩ :: ⟨p, es⟩ :: rest
        currentPath := includeTrailingPathDelimiter w.currentPath ++ name.toList } := by
  obtain ⟨htakes, hfdopen⟩ := Bool.and_eq_true_iff.1 henter
  obtain ⟨hdirfd, hopenat⟩ := Bool.and_eq_true_iff.1 htakes
  rw [Bool.not_eq_true'] at hfdopen hdirfd hopenat
  rw [Traversal.turn, show v.faults.dirfd p = false from hdirfd, hopenat, hfdopen]
  rfl

/-- **The turns for a directory**, by induction on its entries. -/
theorem loop_visited (hnamed : es.Named) (hstack : w.traverseStack = ⟨p, es⟩ :: rest)
    (hmatch : Matches root w.currentPath p) (hopened : w.disk.opened = p :: ps) :
    ∃ w', w.loop v = w'.loop v ∧ Visited v root (seen v.faults p es) p rest ps w w' := by
  induction es generalizing p w rest ps with
  | nil =>
      refine ⟨_, loop_of_stack hstack, .nil rfl rfl rfl, fun ho => ho.closeDir hopened, rfl,
        ⟨_, hmatch, rfl⟩, ?_⟩
      simp [Traversal.turn, Disk.closeDir, hopened]
  | dots es ih =>
      rw [loop_of_stack hstack]
      obtain ⟨w', hw', hvisited⟩ := ih (w := w.turn v p rest (.dots es)) hnamed rfl hmatch hopened
      exact ⟨w', hw', hvisited.after (l := []) (.nil rfl rfl rfl) id⟩
  | file name es ih =>
      rw [loop_of_stack hstack]
      obtain ⟨w', hw', hvisited⟩ :=
        ih (w := w.turn v p rest (.file name es)) hnamed.2 rfl hmatch hopened
      refine ⟨w', hw', hvisited.after (l := [(name :: p, false)]) ⟨⟨_, rfl, ?_⟩, rfl, rfl⟩ id⟩
      exact List.Forall₂.cons (hmatch.entry name) List.Forall₂.nil
  | dir name sub es ihsub ih =>
      obtain ⟨hname, hsub, hes⟩ := hnamed
      rw [loop_of_stack hstack]
      cases henter : v.faults.enters (name :: p) with
      | false =>
          obtain ⟨hstack₁, hpath₁, hopened₁, horderly₁, hgains₁⟩ :=
            turn_refused henter hopened root rest sub es
          obtain ⟨w', hw', hvisited⟩ := ih hes hstack₁ (by rw [hpath₁]; exact hmatch) hopened₁
          refine ⟨w', hw', ?_⟩
          rw [seen, henter]
          exact hvisited.after hgains₁ horderly₁
      | true =>
          rw [turn_entered henter]
          -- down, and back to the parent
          obtain ⟨w₁, hw₁, hbelow⟩ := ihsub (p := name :: p)
            (w := { w with
              disk := w.disk.openDir (name :: p)
              read := (name :: p) :: w.read
              traverseStack := ⟨name :: p, sub⟩ :: ⟨p, es⟩ :: rest
              currentPath := includeTrailingPathDelimiter w.currentPath ++ name.toList })
            hsub rfl (hmatch.enter hname)
            (show (name :: p) :: w.disk.opened = (name :: p) :: p :: ps by rw [hopened])
          obtain ⟨c, hc, hcut⟩ := hbelow.current
          obtain ⟨w', hw', hvisited⟩ :=
            ih hes hbelow.stack (by rw [hcut]; exact hc.leave) hbelow.opened
          refine ⟨w', hw₁.trans hw', ?_⟩
          rw [seen, henter]
          have htakes : v.faults.takes (name :: p) = true := (Bool.and_eq_true_iff.1 henter).1
          refine (hvisited.after hbelow.gains hbelow.orderly).after
            (l := [(name :: p, true)]) ⟨⟨[], ?_, List.Forall₂.nil⟩, ?_, ?_⟩ fun ho => ho.openDir _
          · exact (List.append_nil _).symm
          · rw [pick_cons_same, henter]
            rfl
          · rw [pick_cons_same, htakes]
            rfl

end Visit

/-! ## The result -/

/-- A volume as the kernel shows it: the names are names. -/
structure Tree extends Volume where
  named : root.Named

/-- What `GetDirFiles` is to leave, of a tree whose root is spelled `path`. -/
structure Enumerates (t : Tree) (path : Str) (files : List Str) (r : Listed) : Prop where
  /-- What was in `files` stays, and the new strings are the paths of different files: of all that
  are in a directory that has been opened for reading. -/
  entries : ∃ new ps, r.files = files ++ new ∧
    List.Forall₂ (fun s c => Similar '/' s (spelled path c)) new ps ∧ ps.Nodup ∧
    ∀ c, c ∈ ps ↔ (c, false) ∈ t.root.marked [] ∧ c.tail ∈ r.read
  /-- A directory is read if it can be opened from its parent, which is read. -/
  reads : ∀ c, c ∈ r.read ↔ (c = [] ∧ t.faults.opendir = false) ∨
    ((c, true) ∈ t.root.marked [] ∧ c.tail ∈ r.read ∧ t.faults.enters c = true)
  once : (openedIn r.disk.log).Nodup
  closed : Settled (r.disk.log.flatMap Call.deals)

/-- **`GetDirFiles` enumerates the tree**, whatever `readdir` returns in which order, whatever cannot
be opened, and however the root is spelled. -/
theorem getDirFiles_enumerates (t : Tree) (path : Str) (files : List Str) :
    Enumerates t path files (getDirFiles t.toVolume path files) := by
  rw [getDirFiles]
  cases hroot : t.faults.opendir with
  | true =>
      refine ⟨⟨[], [], (List.append_nil _).symm, List.Forall₂.nil, List.nodup_nil, fun c => ?_⟩,
        fun c => ?_, List.nodup_nil, rfl⟩
      · simp
      · simp [hroot]
  | false =>
      obtain ⟨w', hloop, hvisited⟩ := loop_visited (v := t.toVolume) (w := {
        files
        disk := Disk.openDir {} []
        read := [[]]
        traverseStack := [⟨[], t.root⟩]
        currentPath := excludeTrailingPathDelimiter path }) t.named rfl (.start path) rfl
      have hend : w'.loop t.toVolume = w' := by
        rw [Traversal.loop]
        split
        · rfl
        · rename_i hstack
          rw [hvisited.stack] at hstack
          cases hstack
      rw [if_neg Bool.false_ne_true, hloop, hend]
      have hread : ∀ c, c ∈ w'.read ↔
          c = [] ∨ ((c, true) ∈ seen t.faults [] t.root ∧ t.faults.enters c = true) := by
        intro c
        rw [hvisited.gains.read, List.mem_append, List.mem_reverse, mem_pick, List.mem_singleton]
        exact or_comm
      have hseen : ∀ c b, (c, b) ∈ seen t.faults [] t.root ↔
          (c, b) ∈ t.root.marked [] ∧ c.tail ∈ w'.read := fun c b => by
        rw [mem_seen, hread]
        exact and_congr_right reached_iff
      obtain ⟨new, hnew, hall⟩ := hvisited.gains.files
      refine ⟨⟨new, _, hnew, hall, pick_seen_sublist.nodup t.distinct, fun c => ?_⟩, fun c => ?_,
        ?_, (hvisited.orderly ((Orderly.start _).openDir [])).settled hvisited.opened⟩
      · rw [mem_pick, and_iff_left rfl]
        exact hseen c false
      · rw [hread, hseen, and_iff_left hroot, and_assoc]
      · rw [hvisited.gains.taken]
        have hnodup : (pick true t.faults.takes (seen t.faults [] t.root)).Nodup :=
          pick_seen_sublist.nodup t.distinct
        refine List.nodup_append.2 ⟨List.nodup_reverse.2 hnodup, List.nodup_singleton _, ?_⟩
        rintro c hc _ hroot' rfl
        rw [List.mem_singleton.1 hroot'] at hc
        exact Entries.self_not_mem_paths (pick_seen_sublist.subset (List.mem_reverse.1 hc))

/-- A directory in a directory, one that cannot be opened, and files around them. -/
def lockedInside : Tree where
  root := .dots (.file "a" (.dir "sub" (.dir "deep" (.file "b" .nil) (.file "c" .nil))
    (.dir "locked" (.file "d" .nil) (.file "e" .nil))))
  faults := { openat := fun c => decide (c = ["locked"]) }
  named := ⟨by decide, ⟨by decide, ⟨by decide, ⟨by decide, trivial⟩, ⟨by decide, trivial⟩⟩,
    ⟨by decide, ⟨by decide, trivial⟩, ⟨by decide, trivial⟩⟩⟩⟩

theorem getDirFiles_enumerates_lockedInside :
    (getDirFiles lockedInside.toVolume "r/".toList ["old".toList]).files =
      ["old", "r/a", "r/sub/deep/b", "r/sub/c", "r/e"].map String.toList ∧
    Enumerates lockedInside "r/".toList ["old".toList]
      (getDirFiles lockedInside.toVolume "r/".toList ["old".toList]) :=
  ⟨by decide +kernel, getDirFiles_enumerates lockedInside _ _⟩

/-- A folder is empty if nothing but directories is in what can be read of it. -/
theorem isEmptyFolder_iff (t : Tree) (path : Str) : isEmptyFolder t.toVolume path = true ↔
    ∀ c, (c, false) ∈ t.root.marked [] → c.tail ∉ (getDirFiles t.toVolume path []).read := by
  obtain ⟨new, ps, hnew, hall, -, hps⟩ := (getDirFiles_enumerates t path []).entries
  rw [isEmptyFolder, hnew, List.nil_append, List.isEmpty_iff_length_eq_zero, hall.length_eq,
    List.length_eq_zero_iff, List.eq_nil_iff_forall_not_mem]
  refine forall_congr' fun c => ?_
  rw [hps, not_and]

end CUtils.Directory
