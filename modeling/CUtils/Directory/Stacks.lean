import CUtils.Directory.Calls
import CUtils.Lib.BottomUp
import Mathlib.Data.List.Perm.Basic
import Mathlib.Algebra.GroupWithZero.Nat

/-!
# The two stacks

The invariant of the traversal (`Going`) ties the stacks together: every directory on `removeStack`
is open and lies above its parent, and what is still to be read has neither been removed nor put on
a stack. Each round moves what `reached` says of one directory from the traversal stack to
`removeStack` and to the removed files, so the whole of it does not change (`Found`).

The second loop then takes the directories from below. It closes each of them before it is removed
through the descriptor of its parent, which is further down on the stack.
-/

namespace CUtils.Directory

open Resource

/-! ## One directory -/

section Pushed

variable (v : Volume)

/-- The directories that are opened while `p` is read. -/
def pushed (p : Path) : Entries → List Dir
  | .nil => []
  | .dots rest => pushed p rest
  | .file name rest => if v.faults.stuck (name :: p) then [] else pushed p rest
  | .dir name sub rest =>
      if v.faults.shut (name :: p) then pushed p rest else ⟨name :: p, sub⟩ :: pushed p rest

/-- The files that are removed while `p` is read. -/
def cleared (p : Path) : Entries → List Path
  | .nil => []
  | .dots rest | .dir _ _ rest => cleared p rest
  | .file name rest => if v.faults.stuck (name :: p) then [] else (name :: p) :: cleared p rest

end Pushed

/-- The entry of `removeStack` for a directory. -/
def Dir.node (x : Dir) : DirectoryNode := ⟨x.path, x.path.tail, x.path.headD ""⟩

def Dir.paths (x : Dir) : List Path := x.entries.paths x.path

variable {v : Volume} {p c : Path} {name : String} {sub rest es : Entries} {b : Bool}

theorem pushed_stuck (h : v.faults.stuck (name :: p) = true) :
    pushed v p (.file name rest) = [] := if_pos h

theorem pushed_file (h : v.faults.stuck (name :: p) = false) :
    pushed v p (.file name rest) = pushed v p rest := if_neg (Bool.eq_false_iff.1 h)

theorem pushed_shut (h : v.faults.shut (name :: p) = true) :
    pushed v p (.dir name sub rest) = pushed v p rest := if_pos h

theorem pushed_dir (h : v.faults.shut (name :: p) = false) :
    pushed v p (.dir name sub rest) = ⟨name :: p, sub⟩ :: pushed v p rest :=
  if_neg (Bool.eq_false_iff.1 h)

theorem cleared_stuck (h : v.faults.stuck (name :: p) = true) :
    cleared v p (.file name rest) = [] := if_pos h

theorem cleared_file (h : v.faults.stuck (name :: p) = false) :
    cleared v p (.file name rest) = (name :: p) :: cleared v p rest :=
  if_neg (Bool.eq_false_iff.1 h)

theorem mem_pushed_file {x : Dir} (hx : x ∈ pushed v p (.file name rest)) :
    x ∈ pushed v p rest := by
  cases h : v.faults.stuck (name :: p) with
  | true =>
      rw [pushed_stuck h] at hx
      exact absurd hx List.not_mem_nil
  | false =>
      rw [pushed_file h] at hx
      exact hx

theorem mem_pushed_dir {x : Dir} (hx : x ∈ pushed v p (.dir name sub rest)) :
    x = ⟨name :: p, sub⟩ ∨ x ∈ pushed v p rest := by
  cases h : v.faults.shut (name :: p) with
  | true =>
      rw [pushed_shut h] at hx
      exact Or.inr hx
  | false =>
      rw [pushed_dir h] at hx
      exact List.mem_cons.1 hx

theorem mem_reached :
    (c, b) ∈ reached v p es ↔
      (c ∈ cleared v p es ∧ b = false) ∨
        ∃ x ∈ pushed v p es, (c = x.path ∧ b = true) ∨ (c, b) ∈ x.reached v := by
  induction es with
  | nil => simp [reached, cleared, pushed]
  | dots rest ih => exact ih
  | file name rest ih =>
      cases h : v.faults.stuck (name :: p) with
      | true => simp [reached_stuck h, cleared_stuck h, pushed_stuck h]
      | false =>
          rw [mem_reached_file h, ih, cleared_file h, pushed_file h, List.mem_cons, or_and_right,
            or_assoc]
  | dir name sub rest ihsub ih =>
      cases h : v.faults.shut (name :: p) with
      | true =>
          rw [reached_shut h, ih, pushed_shut h]
          rfl
      | false =>
          rw [mem_reached_dir h, ih, pushed_dir h, List.exists_mem_cons_iff, ← or_assoc,
            or_left_comm]
          rfl

theorem cleared_subset : cleared v p es ⊆ es.paths p := fun _ hc =>
  reached_subset (b := false) (mem_reached.2 (Or.inl ⟨hc, rfl⟩))

theorem pushed_placed (hes : Placed v p es) {x : Dir} (hx : x ∈ pushed v p es) :
    Placed v x.path x.entries := by
  induction es with
  | nil => exact absurd hx List.not_mem_nil
  | dots rest ih => exact ih hes.dots hx
  | file name rest ih => exact ih hes.file (mem_pushed_file hx)
  | dir name sub rest ihsub ih =>
      rcases mem_pushed_dir hx with rfl | hx
      · exact hes.sub
      · exact ih hes.rest hx

theorem pushed_parent {x : Dir} (hx : x ∈ pushed v p es) : ∃ name, x.path = name :: p := by
  induction es with
  | nil => exact absurd hx List.not_mem_nil
  | dots rest ih => exact ih hx
  | file name rest ih => exact ih (mem_pushed_file hx)
  | dir name sub rest ihsub ih =>
      rcases mem_pushed_dir hx with rfl | hx
      · exact ⟨name, rfl⟩
      · exact ih hx

/-- The opened directories and what is in them are different parts of the entries. -/
theorem pushed_sublist :
    ((pushed v p es).flatMap fun x => x.path :: x.paths).Sublist (es.paths p) := by
  induction es with
  | nil => exact List.Sublist.refl _
  | dots rest ih => exact ih
  | file name rest ih =>
      cases h : v.faults.stuck (name :: p) with
      | true =>
          rw [pushed_stuck h]
          exact List.nil_sublist _
      | false =>
          rw [pushed_file h]
          exact ih.cons _
  | dir name sub rest ihsub ih =>
      cases h : v.faults.shut (name :: p) with
      | true =>
          rw [pushed_shut h]
          exact (ih.trans (List.sublist_append_right ..)).cons _
      | false =>
          rw [pushed_dir h, List.flatMap_cons]
          exact List.Sublist.append (List.Sublist.refl ((name :: p) :: sub.paths (name :: p))) ih

theorem pushed_subset {x : Dir} (hx : x ∈ pushed v p es) (hc : c ∈ x.path :: x.paths) :
    c ∈ es.paths p :=
  pushed_sublist.subset (List.mem_flatMap.2 ⟨x, hx, hc⟩)

/-- No file that is removed lies in a directory that is opened. -/
theorem cleared_disjoint (hes : Placed v p es) {x : Dir} (hx : x ∈ pushed v p es)
    (hc : c ∈ x.path :: x.paths) : c ∉ cleared v p es := by
  induction es with
  | nil => exact absurd hx List.not_mem_nil
  | dots rest ih => exact ih hes.dots hx
  | file name rest ih =>
      have hrest := mem_pushed_file hx
      cases h : v.faults.stuck (name :: p) with
      | true =>
          rw [cleared_stuck h]
          exact List.not_mem_nil
      | false =>
          rw [cleared_file h]
          intro hmem
          rcases List.mem_cons.1 hmem with rfl | hmem
          · exact (List.nodup_cons.1 hes.nodup).1 (pushed_subset hrest hc)
          · exact ih hes.file hrest hmem
  | dir name sub rest ihsub ih =>
      rcases mem_pushed_dir hx with rfl | hx
      · intro hmem
        have hrest : c ∈ rest.paths p := cleared_subset hmem
        exact hes.disjoint c hc c hrest rfl
      · exact ih hes.rest hx

def waitingDirs (stack : List Dir) : Nat := (stack.map fun x => 1 + x.entries.dirs).sum

theorem waitingDirs_cons (x : Dir) (stack : List Dir) :
    waitingDirs (x :: stack) = 1 + x.entries.dirs + waitingDirs stack := rfl

theorem waitingDirs_reverse_append (xs stack : List Dir) :
    waitingDirs (xs.reverse ++ stack) = waitingDirs xs + waitingDirs stack := by
  simp only [waitingDirs, List.map_append, List.map_reverse, List.sum_append, List.sum_reverse]

theorem pushed_dirs : waitingDirs (pushed v p es) ≤ es.dirs := by
  induction es with
  | nil => exact Nat.le_refl _
  | dots rest ih => exact ih
  | file name rest ih =>
      cases h : v.faults.stuck (name :: p) with
      | true =>
          rw [pushed_stuck h]
          exact Nat.zero_le _
      | false =>
          rw [pushed_file h]
          exact ih
  | dir name sub rest ihsub ih =>
      have hdirs : (Entries.dir name sub rest).dirs = 1 + sub.dirs + rest.dirs := rfl
      cases h : v.faults.shut (name :: p) with
      | true =>
          rw [pushed_shut h]
          omega
      | false =>
          rw [pushed_dir h, waitingDirs_cons, hdirs]
          exact Nat.add_le_add_left ih _

/-! ## The inner loop -/

/-- Everything that reading a directory does. -/
structure Read (v : Volume) (p : Path) (es : Entries) (w w' : Walk) : Prop where
  travers : w'.traversStack = (pushed v p es).reverse ++ w.traversStack
  remove : w'.removeStack = (pushed v p es).reverse.map Dir.node ++ w.removeStack
  opened : w'.disk.opened = (pushed v p es).reverse.map Dir.path ++ w.disk.opened
  gone : w'.disk.gone = (cleared v p es).reverse ++ w.disk.gone
  orderly : Orderly v w.disk → Orderly v w'.disk
  /-- No directory is removed yet. -/
  files : (∀ c ∈ w.disk.log, c.onDir = false) → ∀ c ∈ w'.disk.log, c.onDir = false

/-- Nothing is left to be read, or nothing more will be. -/
theorem Read.stop {w w' : Walk} (hpushed : pushed v p es = []) (hcleared : cleared v p es = [])
    (htravers : w'.traversStack = w.traversStack) (hremove : w'.removeStack = w.removeStack)
    (hopened : w'.disk.opened = w.disk.opened) (hgone : w'.disk.gone = w.disk.gone)
    (horderly : Orderly v w.disk → Orderly v w'.disk)
    (hfiles : (∀ c ∈ w.disk.log, c.onDir = false) → ∀ c ∈ w'.disk.log, c.onDir = false) :
    Read v p es w w' where
  travers := by rw [htravers, hpushed]; rfl
  remove := by rw [hremove, hpushed]; rfl
  opened := by rw [hopened, hpushed]; rfl
  gone := by rw [hgone, hcleared]; rfl
  orderly := horderly
  files := hfiles

theorem unlinkat_files {d : Disk} {fd : Path} {name : String}
    (h : ∀ c ∈ d.log, c.onDir = false) :
    ∀ c ∈ (d.unlinkat v fd name false).2.log, c.onDir = false := by
  rw [Disk.unlinkat]
  split
  · exact List.forall_mem_cons.2 ⟨rfl, h⟩
  · exact List.forall_mem_cons.2 ⟨rfl, h⟩

theorem readEntries_read (hes : Placed v p es) {w : Walk} (hopen : p ∈ w.disk.opened)
    (hnew : ∀ c ∈ es.paths p, c ∉ w.disk.gone) : Read v p es w (readEntries v p es w) := by
  induction es generalizing w with
  | nil => exact Read.stop rfl rfl rfl rfl rfl rfl id id
  | dots rest ih =>
      have h := ih hes.dots hopen hnew
      exact ⟨h.travers, h.remove, h.opened, h.gone, h.orderly, h.files⟩
  | file name rest ih =>
      have hself := hnew (name :: p) (List.mem_cons_self ..)
      rw [readEntries, access_eq hopen hself]
      cases haccess : v.faults.faccessat (name :: p) with
      | true =>
          have hstuck : v.faults.stuck (name :: p) = true := by simp [Faults.stuck, haccess]
          exact Read.stop (pushed_stuck hstuck) (cleared_stuck hstuck) rfl rfl rfl rfl id id
      | false =>
          have horderly : Orderly v w.disk → Orderly v (w.disk.unlinkat v p name false).2 :=
            fun h => h.unlinkat hopen fun _ => hes.children_file
          have hopened := unlinkat_opened (v := v) w.disk p name false
          have hgone := unlinkat_gone (v := v) w.disk p name false
          rw [unlinks_file hopen hself] at hgone
          simp only [Bool.not_false, if_true, unlinkat_fst, unlinks_file hopen hself]
          cases hunlink : v.faults.unlinkat (name :: p) with
          | true =>
              have hstuck : v.faults.stuck (name :: p) = true := by simp [Faults.stuck, hunlink]
              rw [hunlink] at hgone
              exact Read.stop (pushed_stuck hstuck) (cleared_stuck hstuck) rfl rfl hopened hgone
                horderly unlinkat_files
          | false =>
              have hstuck : v.faults.stuck (name :: p) = false := by
                simp [Faults.stuck, haccess, hunlink]
              rw [hunlink] at hgone
              replace hgone : (w.disk.unlinkat v p name false).2.gone =
                  (name :: p) :: w.disk.gone := hgone
              have h := ih hes.file (w := { w with disk := (w.disk.unlinkat v p name false).2 })
                (by rw [hopened]; exact hopen) (by
                  intro c hc hmem
                  rw [hgone] at hmem
                  rcases List.mem_cons.1 hmem with rfl | hmem
                  · exact (List.nodup_cons.1 hes.nodup).1 hc
                  · exact hnew c (List.mem_cons_of_mem _ hc) hmem)
              have hpushed : pushed v p (.file name rest) = pushed v p rest := pushed_file hstuck
              have hcleared : cleared v p (.file name rest) = (name :: p) :: cleared v p rest :=
                cleared_file hstuck
              refine ⟨?_, ?_, ?_, ?_, fun ho => h.orderly (horderly ho),
                fun hf => h.files (unlinkat_files hf)⟩
              · rw [hpushed]
                exact h.travers
              · rw [hpushed]
                exact h.remove
              · rw [hpushed, ← hopened]
                exact h.opened
              · rw [hcleared, List.reverse_cons, List.append_assoc, List.singleton_append, ← hgone]
                exact h.gone
  | dir name sub rest ihsub ih =>
      have hrest : ∀ c ∈ rest.paths p, c ∉ w.disk.gone := fun c hc =>
        hnew c (List.mem_cons_of_mem _ (List.mem_append_right _ hc))
      rw [readEntries]
      cases hopenat : v.faults.openat (name :: p) with
      | true =>
          have hpushed : pushed v p (.dir name sub rest) = pushed v p rest :=
            pushed_shut (by simp [Faults.shut, hopenat])
          have h := ih hes.rest (w := { w with ret := false }) hopen hrest
          exact ⟨by rw [hpushed]; exact h.travers, by rw [hpushed]; exact h.remove,
            by rw [hpushed]; exact h.opened, h.gone, h.orderly, h.files⟩
      | false =>
          cases hfdopen : v.faults.fdopendir (name :: p) with
          | true =>
              have hpushed : pushed v p (.dir name sub rest) = pushed v p rest :=
                pushed_shut (by simp [Faults.shut, hfdopen])
              have hopened := openDir_closeDir_opened w.disk (name :: p)
              have h := ih hes.rest
                (w := { w with
                  disk := (w.disk.openDir (name :: p)).closeDir (name :: p), ret := false })
                (by rw [hopened]; exact hopen) hrest
              refine ⟨by rw [hpushed]; exact h.travers, by rw [hpushed]; exact h.remove, ?_, h.gone,
                fun ho => h.orderly ((ho.openDir _).closeDir rfl), fun hf => h.files ?_⟩
              · rw [hpushed, ← hopened]
                exact h.opened
              · exact List.forall_mem_cons.2 ⟨rfl, List.forall_mem_cons.2 ⟨rfl, hf⟩⟩
          | false =>
              have hpushed : pushed v p (.dir name sub rest) =
                  ⟨name :: p, sub⟩ :: pushed v p rest :=
                pushed_dir (by simp [Faults.shut, hopenat, hfdopen])
              have h := ih hes.rest
                (w := { w with
                  disk := w.disk.openDir (name :: p)
                  removeStack := ⟨name :: p, p, name⟩ :: w.removeStack
                  traversStack := ⟨name :: p, sub⟩ :: w.traversStack })
                (List.mem_cons_of_mem _ hopen) hrest
              refine ⟨?_, ?_, ?_, h.gone, fun ho => h.orderly (ho.openDir _), fun hf => h.files ?_⟩
              · rw [hpushed, List.reverse_cons, List.append_assoc]
                exact h.travers
              · rw [hpushed, List.reverse_cons, List.map_append, List.append_assoc]
                exact h.remove
              · rw [hpushed, List.reverse_cons, List.map_append, List.append_assoc]
                exact h.opened
              · exact List.forall_mem_cons.2 ⟨rfl, hf⟩

/-! ## The traversal -/

/-- Each directory lies above its parent, or its parent is the root. -/
def Stacked : List DirectoryNode → Prop
  | [] => True
  | node :: rest =>
      node.dir = node.name :: node.currentFd ∧
        node.currentFd ∈ rest.map DirectoryNode.dir ++ [[]] ∧ Stacked rest

structure Going (v : Volume) (w : Walk) : Prop where
  placed : ∀ x ∈ w.traversStack, Placed v x.path x.entries
  /-- Nothing that is still to be read has been opened, and nothing is to be read twice. -/
  nodup : (w.removeStack.map DirectoryNode.dir ++ w.traversStack.flatMap Dir.paths).Nodup
  opened : w.disk.opened = w.removeStack.map DirectoryNode.dir ++ [[]]
  waiting : ∀ x ∈ w.traversStack, x.path ∈ w.disk.opened
  fresh : ∀ x ∈ w.traversStack, ∀ c ∈ x.paths, c ∉ w.disk.gone
  stacked : Stacked w.removeStack
  orderly : Orderly v w.disk
  files : ∀ c ∈ w.disk.log, c.onDir = false

/-- What has been reached so far, or will be. -/
def Found (v : Volume) (w : Walk) (c : Path) (b : Bool) : Prop :=
  (c ∈ w.disk.gone ∧ b = false) ∨ (c ∈ w.removeStack.map DirectoryNode.dir ∧ b = true) ∨
    ∃ x ∈ w.traversStack, (c, b) ∈ x.reached v

/-- New directories whose parent is open go on top. -/
theorem Stacked.push {stack : List DirectoryNode} (h : Stacked stack)
    (hp : p ∈ stack.map DirectoryNode.dir ++ [[]]) {xs : List Dir}
    (hxs : ∀ x ∈ xs, ∃ name, x.path = name :: p) : Stacked (xs.map Dir.node ++ stack) := by
  induction xs with
  | nil => exact h
  | cons x xs ih =>
      obtain ⟨name, hname⟩ := hxs x (List.mem_cons_self ..)
      refine ⟨?_, ?_, ih fun y hy => hxs y (List.mem_cons_of_mem _ hy)⟩
      · simp [Dir.node, hname]
      · have hfd : x.node.currentFd = p := by simp [Dir.node, hname]
        have hmap : (xs.map Dir.node ++ stack).map DirectoryNode.dir ++ [[]] =
            (xs.map Dir.node).map DirectoryNode.dir ++ (stack.map DirectoryNode.dir ++ [[]]) := by
          rw [List.map_append, List.append_assoc]
        rw [hfd]
        exact hmap ▸ List.mem_append_right _ hp

theorem map_node (xs : List Dir) :
    (xs.map Dir.node).map DirectoryNode.dir = xs.map Dir.path := by
  rw [List.map_map]
  rfl

/-- A directory that is taken from the stack and not read. -/
theorem Going.skip {w : Walk} (h : Going v w) {x : Dir} {rest : List Dir}
    (hstack : w.traversStack = x :: rest) (b : Bool) :
    Going v { w with traversStack := rest, ret := b } := by
  have hmem : ∀ y ∈ rest, y ∈ w.traversStack := fun y hy => by
    rw [hstack]
    exact List.mem_cons_of_mem _ hy
  refine ⟨fun y hy => h.placed y (hmem y hy), ?_, h.opened, fun y hy => h.waiting y (hmem y hy),
    fun y hy => h.fresh y (hmem y hy), h.stacked, h.orderly, h.files⟩
  have hnodup := h.nodup
  rw [hstack, List.flatMap_cons] at hnodup
  exact hnodup.sublist ((List.sublist_append_right ..).append_left _)

/-- A directory that is taken from the stack and read. -/
theorem Going.read {w w' : Walk} (h : Going v w) {x : Dir} {rest : List Dir}
    (hstack : w.traversStack = x :: rest)
    (hread : Read v x.path x.entries { w with traversStack := rest } w') : Going v w' := by
  have hx : x ∈ w.traversStack := by
    rw [hstack]
    exact List.mem_cons_self ..
  have hrest : ∀ y ∈ rest, y ∈ w.traversStack := fun y hy => by
    rw [hstack]
    exact List.mem_cons_of_mem _ hy
  have hnodup := h.nodup
  rw [hstack, List.flatMap_cons] at hnodup
  have hmem : ∀ y ∈ w'.traversStack, y ∈ pushed v x.path x.entries ∨ y ∈ rest := by
    intro y hy
    rw [hread.travers] at hy
    rcases List.mem_append.1 hy with hy | hy
    · exact Or.inl (List.mem_reverse.1 hy)
    · exact Or.inr hy
  have hdirs : w'.removeStack.map DirectoryNode.dir =
      (pushed v x.path x.entries).reverse.map Dir.path ++ w.removeStack.map DirectoryNode.dir := by
    rw [hread.remove, List.map_append, map_node]
  have hopened : w'.disk.opened = w'.removeStack.map DirectoryNode.dir ++ [[]] := by
    rw [hread.opened, hdirs, List.append_assoc]
    exact congrArg _ h.opened
  refine ⟨fun y hy => ?_, ?_, hopened, fun y hy => ?_, fun y hy c hc hgone => ?_, ?_,
    hread.orderly h.orderly, hread.files h.files⟩
  · rcases hmem y hy with hy | hy
    · exact pushed_placed (h.placed x hx) hy
    · exact h.placed y (hrest y hy)
  · -- the opened directories with what is in them are a part of what was in `x`
    rw [hdirs, hread.travers, List.flatMap_append]
    have hparts : ((pushed v x.path x.entries).reverse.map Dir.path ++
        (pushed v x.path x.entries).reverse.flatMap Dir.paths).Perm
        ((pushed v x.path x.entries).flatMap fun x => x.path :: x.paths) :=
      (List.map_append_flatMap_perm ..).trans ((List.reverse_perm _).flatMap_right _)
    have hpushed : ((pushed v x.path x.entries).flatMap fun x => x.path :: x.paths).Sublist
        (x.entries.paths x.path) := pushed_sublist
    have hsub := (List.Sublist.refl (w.removeStack.map DirectoryNode.dir)).append
      (hpushed.append (List.Sublist.refl (rest.flatMap Dir.paths)))
    refine List.Perm.nodup ?_ (hnodup.sublist hsub)
    refine (List.Perm.append_left _ (hparts.symm.append_right _)).trans ?_
    rw [List.append_assoc, List.append_assoc]
    exact List.perm_append_comm_assoc ..
  · rw [hread.opened]
    rcases hmem y hy with hy | hy
    · exact List.mem_append_left _ (List.mem_map_of_mem (List.mem_reverse.2 hy))
    · exact List.mem_append_right _ (h.waiting y (hrest y hy))
  · rw [hread.gone] at hgone
    have hcleared := List.mem_append.1 hgone
    rw [List.mem_reverse] at hcleared
    rcases hmem y hy with hy | hy
    · rcases hcleared with hcl | hcl
      · exact cleared_disjoint (h.placed x hx) hy (List.mem_cons_of_mem _ hc) hcl
      · exact h.fresh x hx c (pushed_subset hy (List.mem_cons_of_mem _ hc)) hcl
    · rcases hcleared with hcl | hcl
      · have hdisj := (List.nodup_append.1 (List.nodup_append.1 hnodup).2.1).2.2
        exact hdisj c (cleared_subset hcl) c (List.mem_flatMap.2 ⟨y, hy, hc⟩) rfl
      · exact h.fresh y (hrest y hy) c hc hcl
  · rw [hread.remove]
    refine h.stacked.push (p := x.path) ?_ fun y hy => pushed_parent (List.mem_reverse.1 hy)
    rw [← h.opened]
    exact h.waiting x hx

theorem found_skip {w : Walk} {x : Dir} {rest : List Dir} (hstack : w.traversStack = x :: rest)
    (hx : x.reached v = []) (ret : Bool) :
    Found v { w with traversStack := rest, ret := ret } c b ↔ Found v w c b := by
  simp [Found, hstack, hx]

theorem found_read {w w' : Walk} {x : Dir} {rest : List Dir}
    (hstack : w.traversStack = x :: rest)
    (hread : Read v x.path x.entries { w with traversStack := rest } w')
    (hx : x.reached v = reached v x.path x.entries) : Found v w' c b ↔ Found v w c b := by
  have hgone : c ∈ w'.disk.gone ↔ c ∈ cleared v x.path x.entries ∨ c ∈ w.disk.gone := by
    rw [hread.gone, List.mem_append, List.mem_reverse]
  have hdirs : c ∈ w'.removeStack.map DirectoryNode.dir ↔
      (∃ y ∈ pushed v x.path x.entries, c = y.path) ∨
        c ∈ w.removeStack.map DirectoryNode.dir := by
    rw [hread.remove, List.map_append, map_node, List.mem_append, List.map_reverse,
      List.mem_reverse, List.mem_map]
    simp only [eq_comm]
  have hwait : (∃ y ∈ w'.traversStack, (c, b) ∈ y.reached v) ↔
      (∃ y ∈ pushed v x.path x.entries, (c, b) ∈ y.reached v) ∨
        ∃ y ∈ rest, (c, b) ∈ y.reached v := by
    rw [hread.travers]
    simp only [List.mem_append, List.mem_reverse, or_and_right, exists_or]
  rw [Found, Found, hgone, hdirs, hwait, hstack, List.exists_mem_cons_iff, hx, mem_reached]
  constructor
  · rintro (⟨h | h, hb⟩ | ⟨⟨y, hy, h⟩ | h, hb⟩ | ⟨y, hy, h⟩ | h)
    · exact Or.inr (Or.inr (Or.inl (Or.inl ⟨h, hb⟩)))
    · exact Or.inl ⟨h, hb⟩
    · exact Or.inr (Or.inr (Or.inl (Or.inr ⟨y, hy, Or.inl ⟨h, hb⟩⟩)))
    · exact Or.inr (Or.inl ⟨h, hb⟩)
    · exact Or.inr (Or.inr (Or.inl (Or.inr ⟨y, hy, Or.inr h⟩)))
    · exact Or.inr (Or.inr (Or.inr h))
  · rintro (⟨h, hb⟩ | ⟨h, hb⟩ | (⟨h, hb⟩ | ⟨y, hy, ⟨h, hb⟩ | h⟩) | h)
    · exact Or.inl ⟨Or.inr h, hb⟩
    · exact Or.inr (Or.inl ⟨Or.inr h, hb⟩)
    · exact Or.inl ⟨Or.inl h, hb⟩
    · exact Or.inr (Or.inl ⟨Or.inl ⟨y, hy, h⟩, hb⟩)
    · exact Or.inr (Or.inr (Or.inl ⟨y, hy, h⟩))
    · exact Or.inr (Or.inr (Or.inr h))

/-- **The traversal.** It comes to an end, and what is reached from the waiting directories has then
been removed or stands on `removeStack`. -/
theorem traverse_spec {fuel : Nat} {w : Walk} (h : Going v w)
    (hfuel : waitingDirs w.traversStack ≤ fuel) :
    (traverse v fuel w).traversStack = [] ∧ Going v (traverse v fuel w) ∧
      ∀ c b, Found v (traverse v fuel w) c b ↔ Found v w c b := by
  induction fuel generalizing w with
  | zero =>
      have hempty : w.traversStack = [] := by
        cases hstack : w.traversStack with
        | nil => rfl
        | cons x rest =>
            rw [hstack, waitingDirs_cons] at hfuel
            omega
      exact ⟨hempty, h, fun _ _ => Iff.rfl⟩
  | succ fuel ih =>
      rw [traverse]
      cases hstack : w.traversStack with
      | nil => exact ⟨hstack, h, fun _ _ => Iff.rfl⟩
      | cons x rest =>
          rw [hstack, waitingDirs_cons] at hfuel
          dsimp only
          by_cases hfd : v.faults.dirfd x.path = true
          · rw [if_pos hfd]
            obtain ⟨hend, hgoing, hfound⟩ := ih (h.skip hstack false) (by
              show waitingDirs rest ≤ fuel
              omega)
            refine ⟨hend, hgoing, fun c b => (hfound c b).trans (found_skip hstack ?_ false)⟩
            rw [Dir.reached, if_pos hfd]
          · rw [if_neg hfd]
            have hx : x ∈ w.traversStack := by
              rw [hstack]
              exact List.mem_cons_self ..
            have hread := readEntries_read (w := { w with traversStack := rest })
              (h.placed x hx) (h.waiting x hx) (h.fresh x hx)
            obtain ⟨hend, hgoing, hfound⟩ := ih (h.read hstack hread) (by
              have hdirs : waitingDirs (pushed v x.path x.entries) ≤ x.entries.dirs := pushed_dirs
              rw [hread.travers, waitingDirs_reverse_append]
              show _ + waitingDirs rest ≤ fuel
              omega)
            refine ⟨hend, hgoing, fun c b => (hfound c b).trans (found_read hstack hread ?_)⟩
            rw [Dir.reached, if_neg hfd]

end CUtils.Directory
