import CUtils.UniqueFd.Ownership

/-!
# An object that nobody touches

As long as no step is about an object, its descriptor is neither closed nor handed out again: what a
step closes belonged to the program or to one of the objects that the step is about, and a
descriptor has one owner.
-/

namespace CUtils.UniqueFds

open Resource

variable {ι : Type} [DecidableEq ι]

namespace Process

variable {s : Process ι}

/-- A step closes nothing but what the program or one of its objects held. -/
theorem log_step (s : Process ι) (op : Op ι) (hop : s.Proper op) :
    (s.step op).log = s.log ∨ (∃ fd, (s.step op).log = .take fd :: s.log ∧ op = .opens fd) ∨
      ∃ o fd, (s.step op).log = .give fd :: s.log ∧ s.Owns o fd ∧ ∀ i, o = some i → i ∈ op.objects := by
  have hreset : ∀ (t : Process ι) (i : ι) (value : Int), (t.reset i value).log = t.log ∨
      ∃ fd, (t.reset i value).log = .give fd :: t.log ∧ t.Owns (some i) fd := by
    intro t i value
    rw [log_reset]
    by_cases hi : 0 ≤ t.get i
    · rw [if_pos hi]
      exact .inr ⟨t.get i, rfl, hi, objects_of_get hi⟩
    · rw [if_neg hi]
      exact .inl rfl
  cases op with
  | opens fd => exact .inr (.inl ⟨fd, rfl, rfl⟩)
  | closes fd => exact .inr (.inr ⟨none, fd, rfl, hop, fun i hi => by cases hi⟩)
  | construct i value => exact .inl rfl
  | constructDefault i => exact .inl rfl
  | release i => exact .inl rfl
  | moveConstruct i rhs => exact .inl rfl
  | destroy i =>
      rcases hreset s i (-1) with hlog | ⟨fd, hlog, howner⟩
      · exact .inl hlog
      · refine .inr (.inr ⟨some i, fd, hlog, howner, fun j hj => ?_⟩)
        rw [← Option.some.inj hj]
        exact List.mem_singleton.2 rfl
  | moveAssign i rhs =>
      rcases hreset (s.release rhs).2 i (s.release rhs).1 with hlog | ⟨fd, hlog, howner⟩
      · exact .inl hlog
      · have hne : i ≠ rhs := by
          intro heq
          rw [heq] at howner
          exact not_owns_release_self rhs fd howner
        refine .inr (.inr ⟨some i, fd, hlog, (owns_release_ne hne).1 howner, fun j hj => ?_⟩)
        rw [← Option.some.inj hj]
        exact List.mem_cons_self

/-- A step does not change the objects that it is not about. -/
theorem objects_step (s : Process ι) {op : Op ι} {i : ι} (hi : i ∉ op.objects) :
    (s.step op).objects i = s.objects i := by
  cases op with
  | opens fd => rfl
  | closes fd => rfl
  | construct j value => exact objects_setFd_ne (by simpa [Op.objects] using hi) value
  | constructDefault j => exact objects_setFd_ne (by simpa [Op.objects] using hi) (-1)
  | release j => exact objects_release_ne (by simpa [Op.objects] using hi)
  | destroy j =>
      have hj : i ≠ j := by simpa [Op.objects] using hi
      simp [Process.step, Process.destroy, objects_reset, hj]
  | moveConstruct j rhs =>
      have hne : i ≠ j ∧ i ≠ rhs := by simpa [Op.objects] using hi
      exact (objects_setFd_ne hne.1 _).trans (objects_release_ne hne.2)
  | moveAssign j rhs =>
      have hne : i ≠ j ∧ i ≠ rhs := by simpa [Op.objects] using hi
      have hreset : (s.step (.moveAssign j rhs)).objects i = (s.release rhs).2.objects i := by
        simp [Process.step, Process.moveAssign, objects_reset, hne.1]
      exact hreset.trans (objects_release_ne hne.2)

/-- From `s` to `s'` the descriptor `fd` was neither closed nor opened. -/
def Undisturbed (fd : Int) (s s' : Process ι) : Prop :=
  ∃ log, s'.log = log ++ s.log ∧ Deal.give fd ∉ log ∧ Deal.take fd ∉ log

theorem undisturbed_step (h : s.Owned) {op : Op ι} (hop : s.Proper op) {i : ι} {fd : Int}
    (howner : s.Owns (some i) fd) (hi : i ∉ op.objects) : Undisturbed fd s (s.step op) := by
  rcases log_step s op hop with hlog | ⟨fd', hlog, rfl⟩ | ⟨o, fd', hlog, ho, hobjects⟩
  · exact ⟨[], hlog, List.not_mem_nil, List.not_mem_nil⟩
  · -- what is open is not opened again
    have hne : fd' ≠ fd := by
      intro heq
      obtain ⟨fds, hheld, -, hmem⟩ := h.opened
      have hfree := hop.2
      rw [hheld, Option.getD_some] at hfree
      exact hfree ((hmem fd').2 ⟨some i, heq ▸ howner⟩)
    exact ⟨[.take fd'], hlog, by simp, by simpa using hne.symm⟩
  · -- what is closed belonged to somebody else
    have hne : fd' ≠ fd := by
      intro heq
      rw [heq] at ho
      exact hi (hobjects i (h.one _ _ _ ho howner))
    exact ⟨[.give fd'], hlog, by simpa using hne.symm, by simp⟩

omit [DecidableEq ι] in
theorem Undisturbed.trans {fd : Int} {s₁ s₂ s₃ : Process ι} (h : Undisturbed fd s₁ s₂)
    (h' : Undisturbed fd s₂ s₃) : Undisturbed fd s₁ s₃ := by
  obtain ⟨log, hlog, hgive, htake⟩ := h
  obtain ⟨log', hlog', hgive', htake'⟩ := h'
  refine ⟨log' ++ log, by rw [hlog', hlog, List.append_assoc], ?_, ?_⟩
  · rw [List.mem_append]
    exact fun hmem => hmem.elim hgive' hgive
  · rw [List.mem_append]
    exact fun hmem => hmem.elim htake' htake

theorem Keeps.append {ops ops' : List (Op ι)} (h : s.Keeps (ops ++ ops')) :
    s.Keeps ops ∧ (s.run ops).Keeps ops' := by
  induction ops generalizing s with
  | nil => exact ⟨trivial, h⟩
  | cons op ops ih => exact ⟨⟨h.1, (ih h.2).1⟩, (ih h.2).2⟩

theorem run_append (s : Process ι) (ops ops' : List (Op ι)) :
    s.run (ops ++ ops') = (s.run ops).run ops' := by
  induction ops generalizing s with
  | nil => rfl
  | cons op ops ih => exact ih (s.step op)

theorem undisturbed_run (h : s.Owned) {ops : List (Op ι)} (hops : s.Keeps ops) {i : ι} {fd : Int}
    (howner : s.Owns (some i) fd) (hi : ∀ op ∈ ops, i ∉ op.objects) :
    (s.run ops).Owns (some i) fd ∧ Undisturbed fd s (s.run ops) := by
  induction ops generalizing s with
  | nil => exact ⟨howner, [], rfl, List.not_mem_nil, List.not_mem_nil⟩
  | cons op ops ih =>
      have hop := hi op List.mem_cons_self
      have howner' : (s.step op).Owns (some i) fd := ⟨howner.1, (objects_step s hop).trans howner.2⟩
      obtain ⟨hlast, hrest⟩ := ih (h.step hops.1) hops.2 howner'
        fun op' hop' => hi op' (List.mem_cons_of_mem op hop')
      exact ⟨hlast, (undisturbed_step h hops.1 howner hop).trans hrest⟩

/-- **The descriptor of an object stays open** as long as nobody touches the object, whatever else
is opened, closed, moved and destroyed: the number is not closed and opened again in the meantime,
so it stands for the same file. -/
theorem stays_open {ops ops' : List (Op ι)} (hops : (start : Process ι).Keeps (ops ++ ops'))
    {i : ι} {fd : Int} (howner : (start.run ops).Owns (some i) fd)
    (hi : ∀ op ∈ ops', i ∉ op.objects) :
    (start.run (ops ++ ops')).Owns (some i) fd ∧
      Undisturbed fd (start.run ops) (start.run (ops ++ ops')) := by
  obtain ⟨hbefore, hafter⟩ := hops.append
  rw [run_append]
  exact undisturbed_run (Owned.start.run hbefore) hafter howner hi

/-- The object 2 has the number 3, which the object 0 had before. -/
theorem stays_open_moved :
    Undisturbed 3 (start.run (moved.take 7)) (start.run (moved.take 7 ++ [.moveAssign 0 0, .destroy 0])) :=
  (@stays_open Nat _ (moved.take 7) [.moveAssign 0 0, .destroy 0] (by decide) 2 3
    ⟨by decide, by decide⟩ (by simp [Op.objects])).2

end Process

end CUtils.UniqueFds
