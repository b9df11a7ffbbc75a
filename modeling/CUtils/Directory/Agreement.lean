import CUtils.Directory.Stacks
import Mathlib.Data.List.Nodup

/-!
# The two deletions agree

After the traversal the files have gone and the directories stand on `removeStack`, each above its
parent. Removing them from there gives the same as removing each of them where the recursion does,
since a directory goes exactly if everything in it has gone (`mem_sweep`, `BottomUp.mem_removeAll`).
-/

namespace CUtils.Directory

open Resource

variable {v : Volume}

/-! ## The second loop -/

/-- A directory above one that is on the stack is on the stack as well. -/
theorem Stacked.suffix_mem {stack : List DirectoryNode} (h : Stacked stack) {q y : Path}
    (hy : y ∈ stack.map DirectoryNode.dir ++ [[]]) (hsuffix : q <:+ y) :
    q ∈ stack.map DirectoryNode.dir ++ [[]] := by
  induction stack generalizing y with
  | nil =>
      rw [List.mem_singleton.1 hy] at hsuffix
      rw [List.suffix_nil.1 hsuffix]
      exact List.mem_singleton.2 rfl
  | cons node rest ih =>
      obtain ⟨hdir, hparent, hrest⟩ := h
      rcases List.mem_cons.1 hy with rfl | hy
      · rw [hdir] at hsuffix
        rcases List.suffix_cons_iff.1 hsuffix with heq | hsuffix
        · rw [heq, ← hdir]
          exact List.mem_cons_self ..
        · exact List.mem_cons_of_mem _ (ih hrest hparent hsuffix)
      · exact List.mem_cons_of_mem _ (ih hrest hy hsuffix)

/-- The directory on top lies above none of the others. -/
theorem Stacked.top_not_suffix {node : DirectoryNode} {rest : List DirectoryNode}
    (h : Stacked (node :: rest)) (hnodup : node.dir ∉ rest.map DirectoryNode.dir) :
    ∀ y ∈ rest.map DirectoryNode.dir ++ [[]], ¬ node.dir <:+ y := by
  intro y hy hsuffix
  rcases List.mem_append.1 (h.2.2.suffix_mem hy hsuffix) with hmem | hmem
  · exact hnodup hmem
  · rw [h.1] at hmem
    exact absurd (List.mem_singleton.1 hmem) (by simp)

/-- What is on the stack is in no place before something it contains. -/
theorem Stacked.pairwise {stack : List DirectoryNode} (h : Stacked stack)
    (hnodup : (stack.map DirectoryNode.dir).Nodup) :
    (stack.map DirectoryNode.dir).Pairwise fun a b => b ∉ v.children a := by
  induction stack with
  | nil => exact List.Pairwise.nil
  | cons node rest ih =>
      obtain ⟨hnot, hnodup⟩ := List.nodup_cons.1 hnodup
      refine List.pairwise_cons.2 ⟨fun y hy hchild => ?_, ih h.2.2 hnodup⟩
      refine h.top_not_suffix hnot y (List.mem_append_left _ hy) ?_
      rw [← (mem_children.1 hchild).2]
      exact List.tail_suffix y

/-- The directories in the stack are still to be removed: none of them has been tried, nor anything
that contains one of them. -/
structure Ready (v : Volume) (stack : List DirectoryNode) (d : Disk) : Prop where
  stacked : Stacked stack
  nodup : (stack.map DirectoryNode.dir).Nodup
  opened : d.opened = stack.map DirectoryNode.dir ++ [[]]
  orderly : Orderly v d
  first : DescendantsFirst d.log
  fresh : ∀ q ∈ stack.map DirectoryNode.dir, q ∉ d.gone
  untried : ∀ c ∈ d.log, c.onDir = true → ∀ q ∈ c.target,
    ∀ y ∈ stack.map DirectoryNode.dir ++ [[]], ¬ q <:+ y

/-- `unlinkat` adds one call to the log. -/
theorem unlinkat_log (d : Disk) (fd : Path) (name : String) (removedir : Bool) :
    ∃ ok, (d.unlinkat v fd name removedir).2.log = .unlinked fd name removedir ok :: d.log := by
  rw [Disk.unlinkat]
  split
  · exact ⟨true, rfl⟩
  · exact ⟨false, rfl⟩

/-- One round of the second loop. -/
def removeTop (v : Volume) (node : DirectoryNode) (d : Disk) : Disk :=
  ((d.closeDir node.dir).unlinkat v node.currentFd node.name true).2

/-- What is removed in a round. -/
theorem Ready.gone {node : DirectoryNode} {rest : List DirectoryNode} {d : Disk}
    (h : Ready v (node :: rest) d) :
    (removeTop v node d).gone =
      if v.goes node.dir d.gone then node.dir :: d.gone else d.gone := by
  obtain ⟨hdir, hparent, hrest⟩ := h.stacked
  have hopened : (d.closeDir node.dir).opened = rest.map DirectoryNode.dir ++ [[]] := by
    simp [Disk.closeDir, h.opened]
  have hself : node.name :: node.currentFd ∉ (d.closeDir node.dir).gone := by
    rw [← hdir]
    exact h.fresh _ (List.mem_cons_self ..)
  rw [removeTop, unlinkat_gone, unlinks_dir (by rw [hopened]; exact hparent) hself, hdir]
  rfl

theorem Ready.round {node : DirectoryNode} {rest : List DirectoryNode} {d : Disk}
    (h : Ready v (node :: rest) d) : Ready v rest (removeTop v node d) := by
  obtain ⟨hnot, hnodup⟩ := List.nodup_cons.1 h.nodup
  obtain ⟨hdir, hparent, hrest⟩ := h.stacked
  have hclose : (d.closeDir node.dir).opened = rest.map DirectoryNode.dir ++ [[]] := by
    simp [Disk.closeDir, h.opened]
  have hopened : (removeTop v node d).opened = rest.map DirectoryNode.dir ++ [[]] := by
    rw [removeTop, unlinkat_opened, hclose]
  obtain ⟨ok, hlog⟩ := unlinkat_log (v := v) (d.closeDir node.dir) node.currentFd node.name true
  have htarget : ∀ q ∈ (Call.unlinked node.currentFd node.name true ok).target, q = node.dir := by
    intro q hq
    rw [hdir]
    exact (Option.some.inj hq).symm
  refine ⟨hrest, hnodup, hopened, ?_, ?_, ?_, ?_⟩
  · exact (h.orderly.closeDir h.opened).unlinkat (by rw [hclose]; exact hparent)
      fun hfalse => absurd hfalse (by simp)
  · rw [DescendantsFirst, removeTop, hlog]
    refine List.pairwise_cons.2 ⟨fun c hc hon q hq x hx => ?_, List.pairwise_cons.2
      ⟨fun c hc hon q hq x hx => absurd hx (by simp [Call.target]), h.first⟩⟩
    rcases List.mem_cons.1 hc with rfl | hc
    · exact absurd hon (by simp [Call.onDir])
    · rw [htarget x hx]
      exact h.untried c hc hon q hq _ (List.mem_cons_self ..)
  · intro q hq hmem
    rw [h.gone] at hmem
    split at hmem
    · rcases List.mem_cons.1 hmem with rfl | hmem
      · exact hnot hq
      · exact h.fresh q (List.mem_cons_of_mem _ hq) hmem
    · exact h.fresh q (List.mem_cons_of_mem _ hq) hmem
  · intro c hc hon q hq y hy
    rw [removeTop, hlog] at hc
    rcases List.mem_cons.1 hc with rfl | hc
    · rw [htarget q hq]
      exact h.stacked.top_not_suffix hnot y hy
    · rcases List.mem_cons.1 hc with rfl | hc
      · exact absurd hon (by simp [Call.onDir])
      · exact h.untried c hc hon q hq y (List.mem_cons_of_mem _ hy)

/-- **The second loop** leaves the root open, and takes from below what can be taken. -/
theorem removeDirs_spec {stack : List DirectoryNode} {d : Disk} (h : Ready v stack d) :
    Ready v [] (removeDirs v stack d) ∧
      (removeDirs v stack d).gone =
        BottomUp.removeAll v.children (fun q => !v.faults.unlinkat q)
          (stack.map DirectoryNode.dir) d.gone := by
  induction stack generalizing d with
  | nil => exact ⟨h, rfl⟩
  | cons node rest ih =>
      obtain ⟨hready, hgone⟩ := ih h.round
      refine ⟨hready, ?_⟩
      rw [removeDirs, List.map_cons, BottomUp.removeAll]
      refine hgone.trans (congrArg _ ?_)
      rw [h.gone]
      simp [Volume.goes]

/-! ## Both deletions remove the sweep -/

def Volume.rootDir (v : Volume) : Dir := ⟨[], v.root⟩

theorem Dir.mem_swept {x : Dir} (hx : Placed v x.path x.entries) {c : Path} :
    c ∈ x.swept v ↔
      (c, false) ∈ x.reached v ∨ ((c, true) ∈ x.reached v ∧ v.goes c (x.swept v) = true) := by
  rw [Dir.swept, Dir.reached]
  split
  · simp
  · exact mem_sweep hx

/-- What is reached is a file or a directory, not both. -/
theorem Dir.reached_file {x : Dir} (hx : Placed v x.path x.entries) {c : Path}
    (h : (c, true) ∈ x.reached v) : (c, false) ∉ x.reached v := by
  intro h'
  rw [Dir.reached] at h h'
  split at h
  · exact absurd h (by simp)
  · rename_i hfd
    rw [if_neg hfd] at h'
    have hnodup := hx.nodup.sublist (reached_sublist (v := v))
    have heq := List.inj_on_of_nodup_map hnodup h h' rfl
    exact absurd (congrArg Prod.snd heq) (by simp)

/-- The state in which the traversal starts. -/
def Walk.start (v : Volume) : Walk :=
  { disk := Disk.openDir {} [], traversStack := [v.rootDir] }

theorem Going.start (v : Volume) : Going v (Walk.start v) where
  placed x hx := by
    rw [List.mem_singleton.1 hx]
    exact Placed.root v
  nodup := by
    have hroot := v.distinct
    simpa [Walk.start, Volume.rootDir, Dir.paths] using hroot
  opened := rfl
  waiting x hx := by
    rw [List.mem_singleton.1 hx]
    exact List.mem_cons_self ..
  fresh x hx c hc := by simp [Walk.start, Disk.openDir]
  stacked := trivial
  orderly := (Orderly.start v).openDir []
  files c hc := by
    rw [List.mem_singleton.1 hc]
    rfl

theorem found_start {c : Path} {b : Bool} :
    Found v (Walk.start v) c b ↔ (c, b) ∈ v.rootDir.reached v := by
  simp [Found, Walk.start, Disk.openDir]

/-- The first loop has ended. -/
structure Traversed (v : Volume) (w : Walk) : Prop where
  ready : Ready v w.removeStack w.disk
  gone : ∀ c, c ∈ w.disk.gone ↔ (c, false) ∈ v.rootDir.reached v
  dirs : ∀ c, c ∈ w.removeStack.map DirectoryNode.dir ↔ (c, true) ∈ v.rootDir.reached v

theorem traverse_traversed {fuel : Nat} (hfuel : v.root.dirs < fuel) :
    Traversed v (traverse v fuel (Walk.start v)) := by
  have hwaiting : waitingDirs (Walk.start v).traversStack ≤ fuel := by
    simp only [waitingDirs, Walk.start, Volume.rootDir, List.map_cons, List.map_nil, List.sum_cons,
      List.sum_nil]
    omega
  obtain ⟨hend, hgoing, hfound⟩ := traverse_spec (Going.start v) hwaiting
  have hiff : ∀ c b, (c ∈ (traverse v fuel (Walk.start v)).disk.gone ∧ b = false) ∨
      (c ∈ (traverse v fuel (Walk.start v)).removeStack.map DirectoryNode.dir ∧ b = true) ↔
      (c, b) ∈ v.rootDir.reached v := by
    intro c b
    rw [← found_start, ← hfound, Found, hend]
    simp
  have hgone : ∀ c, c ∈ (traverse v fuel (Walk.start v)).disk.gone ↔
      (c, false) ∈ v.rootDir.reached v := fun c => by
    rw [← hiff]
    simp
  have hdirs : ∀ c, c ∈ (traverse v fuel (Walk.start v)).removeStack.map DirectoryNode.dir ↔
      (c, true) ∈ v.rootDir.reached v := fun c => by
    rw [← hiff]
    simp
  have hnodup := hgoing.nodup
  rw [hend, List.flatMap_nil, List.append_nil] at hnodup
  refine ⟨⟨hgoing.stacked, hnodup, hgoing.opened, hgoing.orderly, ?_, fun q hq hmem => ?_, ?_⟩,
    hgone, hdirs⟩
  · refine List.Pairwise.imp_of_mem ?_ (List.pairwise_of_forall (R := fun _ _ => True) (by simp))
    intro later earlier _ hearlier _ hon
    rw [hgoing.files earlier hearlier] at hon
    cases hon
  · exact Dir.reached_file (Placed.root v) ((hdirs q).1 hq) ((hgone q).1 hmem)
  · intro c hc hon
    rw [hgoing.files c hc] at hon
    cases hon

/-- **Both loops together remove what `sweep` says.** -/
theorem Traversed.mem_gone {w : Walk} (h : Traversed v w) (c : Path) :
    c ∈ (removeDirs v w.removeStack w.disk).gone ↔ c ∈ v.rootDir.swept v := by
  have hplaced : Placed v v.rootDir.path v.rootDir.entries := Placed.root v
  rw [(removeDirs_spec h.ready).2,
    BottomUp.mem_removeAll (S := fun q => q ∈ v.rootDir.swept v) h.ready.nodup
      (h.ready.stacked.pairwise h.ready.nodup) (fun q _ => self_not_mem_children q)
      _ _ h.ready.fresh]
  · rw [h.gone, h.dirs, Dir.mem_swept hplaced]
    constructor
    · rintro (hc | ⟨-, hc⟩)
      · exact Or.inl hc
      · exact hc
    · rintro (hc | hc)
      · exact Or.inl hc
      · exact Or.inr ⟨hc.1, Or.inr hc⟩
  · intro q hq
    have hdir := (h.dirs q).1 hq
    rw [Dir.mem_swept hplaced]
    simp only [Dir.reached_file hplaced hdir, hdir, false_or, true_and, Volume.goes,
      decide_eq_true_eq, Bool.not_eq_true']
  · intro q hq c hc hnot
    rw [h.dirs] at hnot
    rw [h.gone, Dir.mem_swept hplaced]
    exact or_iff_left fun hdir => hnot hdir.1

/-- The recursion from the root. -/
theorem internal_mem_gone (v : Volume) (c : Path) :
    c ∈ (forceRemoveDirectoryInternal v v.rootDir (Disk.openDir {} [])).2.gone ↔
      c ∈ v.rootDir.swept v := by
  have h := forceRemoveDirectoryInternal_sweeps (x := v.rootDir) (d := Disk.openDir {} [])
    (Placed.root v) (List.mem_cons_self ..) fun c _ => by simp [Disk.openDir]
  rw [h.gone]
  simp [Disk.openDir]

/-! ## The root -/

theorem rootExists_iff (d : Disk) : d.rootExists = true ↔ [] ∉ d.gone := decide_eq_true_iff

theorem remove_fst (d : Disk) :
    (d.remove v).1 = true ↔
      v.faults.remove = false ∧ ∀ c ∈ v.children [], c ∈ d.gone := by
  rw [Disk.remove]
  split
  · rename_i hok
    exact iff_of_true rfl hok
  · rename_i hok
    exact iff_of_false (by simp) hok

theorem remove_gone (d : Disk) :
    (d.remove v).2.gone = if (d.remove v).1 then [] :: d.gone else d.gone := by
  rw [Disk.remove]
  split
  · rfl
  · rfl

/-- The result says whether the root has gone. -/
theorem removeRoot_result (d : Disk) :
    (removeRoot v d).1 = true ↔ [] ∈ (removeRoot v d).2.gone := by
  rw [removeRoot]
  dsimp only
  by_cases hroot : (d.closeDir []).rootExists = true
  · rw [if_pos hroot]
    have hgone := remove_gone (v := v) (d.closeDir [])
    cases hok : ((d.closeDir []).remove v).1 with
    | true =>
        rw [hok] at hgone
        simp [Disk.rootExists, hgone]
    | false =>
        rw [hok] at hgone
        rw [rootExists_iff] at hroot
        simp [hgone, hroot]
  · rw [if_neg hroot]
    simp [Disk.rootExists]

/-- Only what has been removed matters for the root. -/
theorem removeRoot_congr {d d' : Disk} (h : ∀ c, c ∈ d.gone ↔ c ∈ d'.gone) :
    (removeRoot v d).1 = (removeRoot v d').1 ∧
      ∀ c, c ∈ (removeRoot v d).2.gone ↔ c ∈ (removeRoot v d').2.gone := by
  have hexists : (d.closeDir []).rootExists = (d'.closeDir []).rootExists := by
    rw [Bool.eq_iff_iff, rootExists_iff, rootExists_iff]
    exact not_congr (h [])
  have hok : ((d.closeDir []).remove v).1 = ((d'.closeDir []).remove v).1 := by
    rw [Bool.eq_iff_iff, remove_fst, remove_fst]
    simp [Disk.closeDir, h]
  have hgone : ∀ c, c ∈ ((d.closeDir []).remove v).2.gone ↔
      c ∈ ((d'.closeDir []).remove v).2.gone := by
    intro c
    rw [remove_gone, remove_gone, hok]
    cases ((d'.closeDir []).remove v).1 with
    | true => simp [Disk.closeDir, h]
    | false => exact h c
  have hlast : ((d.closeDir []).remove v).2.rootExists =
      ((d'.closeDir []).remove v).2.rootExists := by
    rw [Bool.eq_iff_iff, rootExists_iff, rootExists_iff]
    exact not_congr (hgone [])
  simp only [removeRoot, hexists, hok, hlast]
  cases (d'.closeDir []).rootExists with
  | false => exact ⟨rfl, h⟩
  | true =>
      cases ((d'.closeDir []).remove v).1 with
      | false => exact ⟨rfl, hgone⟩
      | true => exact ⟨rfl, hgone⟩

theorem prune_congr {gone gone' : List Path} (h : ∀ c, c ∈ gone ↔ c ∈ gone') (p : Path)
    (es : Entries) : es.prune gone p = es.prune gone' p := by
  induction es generalizing p with
  | nil => rfl
  | dots rest ih => rw [Entries.prune, Entries.prune, ih]
  | file name rest ih => simp only [Entries.prune, ih, h]
  | dir name sub rest ihsub ih => simp only [Entries.prune, ihsub, ih, h]

theorem remaining_congr {d d' : Disk} (h : ∀ c, c ∈ d.gone ↔ c ∈ d'.gone) :
    v.remaining d = v.remaining d' := by
  simp only [Volume.remaining, h, prune_congr h]

/-- The calls of `ForceRemoveDirectory` were in order, and everything is closed. -/
structure WellCalled (v : Volume) (log : List Call) : Prop where
  after : Each (Call.AfterDescendants v) log
  first : DescendantsFirst log
  through : Each Call.ThroughOpen log
  settled : Settled (log.flatMap Call.deals)

theorem removeRoot_wellCalled {d : Disk} (h : Ready v [] d) :
    WellCalled v (removeRoot v d).2.log := by
  have hclosed : Orderly v (d.closeDir []) := h.orderly.closeDir h.opened
  have hsettled : (d.closeDir []).opened = [] := by simp [Disk.closeDir, h.opened]
  have hfirst : DescendantsFirst (d.closeDir []).log :=
    List.pairwise_cons.2 ⟨fun c hc hon q hq x hx => absurd hx (by simp [Call.target]), h.first⟩
  have huntried : ∀ c ∈ (d.closeDir []).log, c.onDir = true → ∀ q ∈ c.target, ¬ q <:+ [] := by
    intro c hc hon q hq
    rcases List.mem_cons.1 hc with rfl | hc
    · exact absurd hon (by simp [Call.onDir])
    · exact h.untried c hc hon q hq [] (List.mem_singleton.2 rfl)
  have hremoved : WellCalled v ((d.closeDir []).remove v).2.log := by
    have horderly := hclosed.remove
    have hopened : ((d.closeDir []).remove v).2.opened = [] := by
      rw [← hsettled, Disk.remove]
      split
      · rfl
      · rfl
    refine ⟨horderly.after, ?_, horderly.through, horderly.settled hopened⟩
    have hroot : ∀ b, DescendantsFirst (.removed b :: (d.closeDir []).log) := fun b =>
      List.pairwise_cons.2 ⟨fun c hc hon q hq x hx => by
        rw [← Option.some.inj hx]
        exact huntried c hc hon q hq, hfirst⟩
    rw [Disk.remove]
    split
    · exact hroot true
    · exact hroot false
  rw [removeRoot]
  dsimp only
  split
  · split
    · exact hremoved
    · exact hremoved
  · exact ⟨hclosed.after, hfirst, hclosed.through, hclosed.settled hsettled⟩

/-- **The two deletions agree.** On every volume, whichever calls fail, they leave the same tree and
return the same result, which says whether the root has gone. The deletion with the stacks comes to
an end after one round for each directory; it removes every directory after everything in it and
through an open descriptor of its parent, and closes once what it has opened. -/
theorem deletions_agree (v : Volume) (fuel : Nat) (hfuel : v.root.dirs < fuel) :
    let looped := forceRemoveDirectory v fuel
    let recursive := forceRemoveDirectoryBMS v
    v.remaining looped.2 = v.remaining recursive.2 ∧ looped.1 = recursive.1 ∧
      (looped.1 = true ↔ v.remaining looped.2 = none) ∧ WellCalled v looped.2.log := by
  intro looped recursive
  have htraversed : Traversed v (traverse v fuel (Walk.start v)) := traverse_traversed hfuel
  cases hopen : v.faults.opendir with
  | true =>
      have hstacks : looped = (false, {}) := if_pos hopen
      have hrecursive : recursive = (false, {}) := if_pos hopen
      rw [hstacks, hrecursive]
      refine ⟨rfl, rfl, by simp [Volume.remaining], trivial, List.Pairwise.nil, trivial, rfl⟩
  | false =>
      have hstacks : looped = removeRoot v (removeDirs v
          (traverse v fuel (Walk.start v)).removeStack (traverse v fuel (Walk.start v)).disk) :=
        if_neg (by simp [hopen])
      have hrecursive : recursive = removeRoot v
          (forceRemoveDirectoryInternal v v.rootDir (Disk.openDir {} [])).2 :=
        if_neg (by simp [hopen])
      obtain ⟨hresult, hgone⟩ := removeRoot_congr (v := v) fun c =>
        (htraversed.mem_gone c).trans (internal_mem_gone v c).symm
      rw [hstacks, hrecursive]
      refine ⟨remaining_congr hgone, hresult, ?_,
        removeRoot_wellCalled (removeDirs_spec htraversed.ready).1⟩
      rw [removeRoot_result, Volume.remaining]
      simp

/-- A directory `a` with a file and a directory, then a file that cannot be removed, then a directory
that is not looked at any more. -/
def partly : Volume where
  root := .dots (.dir "a" (.file "x" (.dir "b" .nil .nil)) (.file "z" (.dir "c" .nil .nil)))
  faults := { unlinkat := fun q => q = ["z"] }

theorem deletions_agree_partly :
    partly.root.dirs < 4 ∧
      partly.remaining (forceRemoveDirectory partly 4).2 =
        some (.dots (.file "z" (.dir "c" .nil .nil))) ∧
      partly.remaining (forceRemoveDirectory partly 4).2 =
        partly.remaining (forceRemoveDirectoryBMS partly).2 ∧
      WellCalled partly (forceRemoveDirectory partly 4).2.log := by
  have h := deletions_agree partly 4 (by decide)
  exact ⟨by decide, by decide +kernel, h.1, h.2.2.2⟩

end CUtils.Directory
