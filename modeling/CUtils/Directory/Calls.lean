import CUtils.Directory.Sweep

/-!
# The calls of a deletion

What is said here is about the log of the calls: a directory is removed after everything in it, and
`unlinkat` is given a descriptor that is open at that moment. `Orderly` holds of the log together
with the state of the disk, and one lemma for each call says when it stays true.
-/

namespace CUtils.Directory

open Resource

namespace Call

/-- What is opened and closed. -/
def deals : Call → List (Deal Path)
  | opened dir => [.take dir]
  | closed dir => [.give dir]
  | _ => []

/-- The descriptor the call goes through. -/
def fd : Call → Option Path
  | unlinked fd _ _ _ => some fd
  | _ => none

/-- What the call is to remove. -/
def target : Call → Option Path
  | unlinked fd name _ _ => some (name :: fd)
  | removed _ => some []
  | _ => none

/-- The call is to remove a directory. -/
def onDir : Call → Bool
  | unlinked _ _ removedir _ => removedir
  | removed _ => true
  | _ => false

def done : Call → Bool
  | unlinked _ _ _ ok | removed ok => ok
  | _ => false

end Call

def openedBy (log : List Call) : Option (List Path) := held (log.flatMap Call.deals)

def removedBy (log : List Call) : List Path :=
  log.filterMap fun c => if c.done then c.target else none

/-- Each call stands in the relation `P` to the calls before it. -/
def Each (P : Call → List Call → Prop) : List Call → Prop
  | [] => True
  | c :: log => P c log ∧ Each P log

/-- The descriptor is open at the moment of the call. -/
def Call.ThroughOpen (c : Call) (before : List Call) : Prop :=
  ∀ fd ∈ c.fd, ∃ ps, openedBy before = some ps ∧ fd ∈ ps

/-- If a directory goes, everything below it has gone before. -/
def Call.AfterDescendants (v : Volume) (c : Call) (before : List Call) : Prop :=
  c.onDir = true → c.done = true →
    ∀ q ∈ c.target, ∀ x ∈ v.paths, q <:+ x → x ≠ q → x ∈ removedBy before

/-- Once a directory has been tried, nothing in it is tried again, nor is the directory itself. -/
def DescendantsFirst (log : List Call) : Prop :=
  log.Pairwise fun later earlier =>
    earlier.onDir = true → ∀ q ∈ earlier.target, ∀ x ∈ later.target, ¬ q <:+ x

/-- Everything is removed from below if it is removed entry by entry. -/
theorem descendants_mem {v : Volume} {gone : List Path} {q : Path}
    (hgone : ∀ q ∈ gone, ∀ c ∈ v.children q, c ∈ gone) (hq : ∀ c ∈ v.children q, c ∈ gone) :
    ∀ x ∈ v.paths, q <:+ x → x ≠ q → x ∈ gone := by
  intro x
  induction x with
  | nil => exact fun _ hsuffix hne => absurd (List.suffix_nil.1 hsuffix).symm hne
  | cons a x ih =>
      intro hx hsuffix hne
      rcases List.suffix_cons_iff.1 hsuffix with heq | hsuffix
      · exact absurd heq.symm hne
      · by_cases hxq : x = q
        · exact hq _ (mem_children.2 ⟨hx, hxq⟩)
        · rcases Entries.tail_mem_paths hx with htail | htail
          · -- the parent is the root, so `q` is the root as well
            rw [List.tail_cons] at htail
            subst htail
            exact absurd (List.suffix_nil.1 hsuffix).symm hxq
          · exact hgone x (ih htail hsuffix hxq) _ (mem_children.2 ⟨hx, rfl⟩)

/-- The log tells the state, and everything in it was in order. -/
structure Orderly (v : Volume) (d : Disk) : Prop where
  opened : openedBy d.log = some d.opened
  gone : removedBy d.log = d.gone
  closed : ∀ q ∈ d.gone, ∀ c ∈ v.children q, c ∈ d.gone
  through : Each Call.ThroughOpen d.log
  after : Each (Call.AfterDescendants v) d.log

namespace Orderly

variable {v : Volume} {d : Disk}

theorem start (v : Volume) : Orderly v {} :=
  ⟨rfl, rfl, fun _ hq => absurd hq (by simp), trivial, trivial⟩

theorem openDir (h : Orderly v d) (p : Path) : Orderly v (d.openDir p) where
  opened := held_take h.opened p
  gone := h.gone
  closed := h.closed
  through := ⟨fun _ hfd => absurd hfd (by simp [Call.fd]), h.through⟩
  after := ⟨fun hdir => absurd hdir (by simp [Call.onDir]), h.after⟩

/-- The directory opened last is closed. -/
theorem closeDir (h : Orderly v d) {p : Path} {ps : List Path} (hp : d.opened = p :: ps) :
    Orderly v (d.closeDir p) where
  opened := by
    have hopened := h.opened
    rw [hp] at hopened
    have herase : (d.closeDir p).opened = ps := by simp [Disk.closeDir, hp]
    rw [herase]
    exact held_give hopened
  gone := h.gone
  closed := h.closed
  through := ⟨fun _ hfd => absurd hfd (by simp [Call.fd]), h.through⟩
  after := ⟨fun hdir => absurd hdir (by simp [Call.onDir]), h.after⟩

/-- A directory goes once it is empty, and there is nothing in a file. -/
theorem unlinkat (h : Orderly v d) {fd : Path} {name : String} {removedir : Bool}
    (hopen : fd ∈ d.opened) (hfile : removedir = false → v.children (name :: fd) = []) :
    Orderly v (d.unlinkat v fd name removedir).2 := by
  have hthrough : ∀ b, Each Call.ThroughOpen (.unlinked fd name removedir b :: d.log) := fun b =>
    ⟨fun p hp => ⟨d.opened, h.opened, by rw [← Option.some.inj hp]; exact hopen⟩, h.through⟩
  rw [Disk.unlinkat]
  split
  · rename_i hok
    have hempty : ∀ c ∈ v.children (name :: fd), c ∈ d.gone := by
      cases removedir with
      | false => simp [hfile rfl]
      | true => exact (decide_eq_true_iff.1 hok).2.2.2 rfl
    refine ⟨h.opened, by rw [← h.gone]; rfl, fun q hq c hc => ?_, hthrough true, ?_, h.after⟩
    · rcases List.mem_cons.1 hq with rfl | hq
      · exact List.mem_cons_of_mem _ (hempty c hc)
      · exact List.mem_cons_of_mem _ (h.closed q hq c hc)
    · intro _ _ q hq
      rw [← Option.some.inj hq, h.gone]
      exact descendants_mem h.closed hempty
  · exact ⟨h.opened, h.gone, h.closed, hthrough false, fun _ hdone => absurd hdone (by simp [Call.done]),
      h.after⟩

theorem remove (h : Orderly v d) : Orderly v (d.remove v).2 := by
  have hthrough : ∀ b, Each Call.ThroughOpen (.removed b :: d.log) := fun b =>
    ⟨fun p hp => absurd hp (by simp [Call.fd]), h.through⟩
  rw [Disk.remove]
  split
  · rename_i hok
    refine ⟨h.opened, by rw [← h.gone]; rfl, fun q hq c hc => ?_, hthrough true, ?_, h.after⟩
    · rcases List.mem_cons.1 hq with rfl | hq
      · exact List.mem_cons_of_mem _ (hok.2 c hc)
      · exact List.mem_cons_of_mem _ (h.closed q hq c hc)
    · intro _ _ q hq
      rw [← Option.some.inj hq, h.gone]
      exact descendants_mem h.closed hok.2
  · exact ⟨h.opened, h.gone, h.closed, hthrough false, fun _ hdone => absurd hdone (by simp [Call.done]),
      h.after⟩

theorem settled (h : Orderly v d) (hopened : d.opened = []) :
    Settled (d.log.flatMap Call.deals) := by
  rw [Settled, ← hopened]
  exact h.opened

end Orderly

end CUtils.Directory
