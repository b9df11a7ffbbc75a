import CUtils.UniqueFd.Model

/-!
# Every open descriptor has one owner

Every open descriptor is held by the program or by one object, never by two, and every call of
`close` is for an open descriptor.

**Hand-over.** What a step does to the owners is one of four things: nothing, a descriptor changes
hands, one is closed, one is opened. `Reset` does two of them, one after the other.
-/

namespace CUtils.UniqueFds

open Resource

variable {ι : Type}

namespace Process

/-! ## Owners -/

/-- Who has to close a descriptor: an object, or the program itself. -/
def Owns (s : Process ι) : Option ι → Int → Prop
  | some i, fd => 0 ≤ fd ∧ s.objects i = some fd
  | none, fd => fd ∈ s.loose

/-- Every open descriptor has one owner, and what has an owner is open. In particular the log is one
in which every `close` was for an open descriptor. -/
structure Owned (s : Process ι) : Prop where
  opened : ∃ fds, held s.log = some fds ∧ fds.Nodup ∧ ∀ fd, fd ∈ fds ↔ ∃ o, s.Owns o fd
  one : ∀ o o' fd, s.Owns o fd → s.Owns o' fd → o = o'
  nonneg : ∀ fd ∈ s.loose, 0 ≤ fd

variable {s s' : Process ι}

theorem get_of_objects {i : ι} {fd : Int} (h : s.objects i = some fd) : s.get i = fd := by
  rw [get, h, Option.getD_some]

theorem objects_of_get {i : ι} (h : 0 ≤ s.get i) : s.objects i = some (s.get i) := by
  cases hi : s.objects i with
  | none =>
      rw [get, hi] at h
      exact absurd h (by decide)
  | some fd => rw [get_of_objects hi]

/-! ## What changes hands -/

namespace Owned

/-- Nothing changes hands. -/
theorem same (h : s.Owned) (hlog : s'.log = s.log) (hloose : ∀ fd ∈ s'.loose, 0 ≤ fd)
    (howns : ∀ o fd, s'.Owns o fd ↔ s.Owns o fd) : s'.Owned := by
  obtain ⟨fds, hheld, hnodup, hmem⟩ := h.opened
  refine ⟨⟨fds, hlog ▸ hheld, hnodup, fun fd => ?_⟩, fun o o' fd ho ho' => ?_, hloose⟩
  · rw [hmem fd]
    exact exists_congr fun o => (howns o fd).symm
  · exact h.one o o' fd ((howns o fd).1 ho) ((howns o' fd).1 ho')

/-- `x`, which had an owner, now belongs to `b`. -/
theorem hand (h : s.Owned) (hlog : s'.log = s.log) (hloose : ∀ fd ∈ s'.loose, 0 ≤ fd) {x : Int}
    {a b : Option ι} (ha : s.Owns a x)
    (howns : ∀ o fd, s'.Owns o fd ↔ if fd = x then o = b else s.Owns o fd) : s'.Owned := by
  obtain ⟨fds, hheld, hnodup, hmem⟩ := h.opened
  refine ⟨⟨fds, hlog ▸ hheld, hnodup, fun fd => ?_⟩, fun o o' fd ho ho' => ?_, hloose⟩
  · rw [hmem fd]
    by_cases hfd : fd = x
    · subst hfd
      exact iff_of_true ⟨a, ha⟩ ⟨b, (howns b fd).2 (by rw [if_pos rfl])⟩
    · apply exists_congr
      intro o
      rw [howns, if_neg hfd]
  · rw [howns] at ho ho'
    by_cases hfd : fd = x
    · rw [if_pos hfd] at ho ho'
      exact ho.trans ho'.symm
    · rw [if_neg hfd] at ho ho'
      exact h.one o o' fd ho ho'

/-- `x`, which had an owner, is closed. -/
theorem closed (h : s.Owned) (hloose : ∀ fd ∈ s'.loose, 0 ≤ fd) {x : Int} {a : Option ι}
    (ha : s.Owns a x) (hlog : s'.log = .give x :: s.log)
    (howns : ∀ o fd, s'.Owns o fd ↔ fd ≠ x ∧ s.Owns o fd) : s'.Owned := by
  obtain ⟨fds, hheld, hnodup, hmem⟩ := h.opened
  have hx : x ∈ fds := (hmem x).2 ⟨a, ha⟩
  refine ⟨⟨fds.erase x, ?_, hnodup.erase x, fun fd => ?_⟩, fun o o' fd ho ho' => ?_, hloose⟩
  · rw [hlog]
    exact held_give_mem hheld hx
  · rw [hnodup.mem_erase_iff, hmem fd, ← exists_and_left]
    exact exists_congr fun o => (howns o fd).symm
  · exact h.one o o' fd ((howns o fd).1 ho).2 ((howns o' fd).1 ho').2

/-- `x`, which was not open, is opened for the program. -/
theorem opens (h : s.Owned) {x : Int} (hx : 0 ≤ x) (hfree : x ∉ (held s.log).getD [])
    (hlog : s'.log = .take x :: s.log) (hloose : s'.loose = x :: s.loose)
    (hobjects : s'.objects = s.objects) : s'.Owned := by
  obtain ⟨fds, hheld, hnodup, hmem⟩ := h.opened
  rw [hheld, Option.getD_some] at hfree
  have hnew : ∀ o, ¬ s.Owns o x := fun o ho => hfree ((hmem x).2 ⟨o, ho⟩)
  have howns : ∀ o fd, s'.Owns o fd ↔ o = none ∧ fd = x ∨ s.Owns o fd := by
    intro o fd
    cases o with
    | none =>
        rw [Owns, Owns, hloose, List.mem_cons]
        simp
    | some i =>
        rw [Owns, Owns, hobjects]
        simp
  refine ⟨⟨x :: fds, ?_, List.nodup_cons.2 ⟨hfree, hnodup⟩, fun fd => ?_⟩,
    fun o o' fd ho ho' => ?_, fun fd hfd => ?_⟩
  · rw [hlog]
    exact held_take hheld x
  · rw [List.mem_cons, hmem fd]
    constructor
    · rintro (hfd | ⟨o, ho⟩)
      · exact ⟨none, (howns none fd).2 (.inl ⟨rfl, hfd⟩)⟩
      · exact ⟨o, (howns o fd).2 (.inr ho)⟩
    · rintro ⟨o, ho⟩
      rcases (howns o fd).1 ho with ⟨-, hfd⟩ | ho
      · exact .inl hfd
      · exact .inr ⟨o, ho⟩
  · rcases (howns o fd).1 ho with ⟨ho, hfd⟩ | ho
    · rcases (howns o' fd).1 ho' with ⟨ho', -⟩ | ho'
      · exact ho.trans ho'.symm
      · exact absurd (hfd ▸ ho') (hnew o')
    · rcases (howns o' fd).1 ho' with ⟨-, hfd⟩ | ho'
      · exact absurd (hfd ▸ ho) (hnew o)
      · exact h.one o o' fd ho ho'
  · rw [hloose] at hfd
    rcases List.mem_cons.1 hfd with rfl | hfd
    · exact hx
    · exact h.nonneg fd hfd

theorem nonneg_filter (h : s.Owned) (value : Int) : ∀ fd ∈ s.loose.filter (· ≠ value), 0 ≤ fd :=
  fun fd hfd => h.nonneg fd (List.mem_of_mem_filter hfd)

end Owned

/-! ## Every step keeps the owners -/

variable [DecidableEq ι]

theorem objects_setFd_self (i : ι) (value : Int) : (s.setFd i value).objects i = some value := by
  simp [setFd]

theorem objects_setFd_ne {i j : ι} (hj : j ≠ i) (value : Int) :
    (s.setFd i value).objects j = s.objects j := by
  simp [setFd, hj]

theorem objects_release_self (i : ι) : (s.release i).2.objects i = some (-1) := by
  simp [release]

theorem objects_release_ne {i j : ι} (hj : j ≠ i) : (s.release i).2.objects j = s.objects j := by
  simp [release, hj]

omit [DecidableEq ι] in
theorem not_owns {i : ι} (hi : s.get i < 0) (fd : Int) : ¬ s.Owns (some i) fd := by
  intro h
  have := get_of_objects h.2
  have := h.1
  omega

theorem owns_setFd_self {i : ι} {value fd : Int} :
    (s.setFd i value).Owns (some i) fd ↔ 0 ≤ fd ∧ fd = value := by
  rw [Owns, objects_setFd_self, Option.some.injEq, eq_comm (a := value)]

theorem owns_setFd_ne {i j : ι} (hj : j ≠ i) {value fd : Int} :
    (s.setFd i value).Owns (some j) fd ↔ s.Owns (some j) fd := by
  rw [Owns, Owns, objects_setFd_ne hj]

theorem owns_setFd_none {i : ι} {value fd : Int} :
    (s.setFd i value).Owns none fd ↔ s.Owns none fd ∧ fd ≠ value :=
  List.mem_filter.trans (and_congr_right fun _ => decide_eq_true_iff)

theorem not_owns_release_self (i : ι) (fd : Int) : ¬ (s.release i).2.Owns (some i) fd := by
  apply not_owns
  rw [get_of_objects (objects_release_self i)]
  decide

theorem owns_release_ne {i j : ι} (hj : j ≠ i) {fd : Int} :
    (s.release i).2.Owns (some j) fd ↔ s.Owns (some j) fd := by
  rw [Owns, Owns, objects_release_ne hj]

theorem owns_release_none {i : ι} {fd : Int} :
    (s.release i).2.Owns none fd ↔ s.Owns (some i) fd ∨ s.Owns none fd := by
  simp only [Owns, release]
  by_cases hi : 0 ≤ s.get i
  · rw [if_pos hi, List.mem_cons]
    refine or_congr_left ⟨fun hfd => ?_, fun hfd => (get_of_objects hfd.2).symm⟩
    rw [hfd]
    exact ⟨hi, objects_of_get hi⟩
  · rw [if_neg hi]
    exact (or_iff_right (not_owns (Int.not_le.1 hi) fd)).symm

/-- `Reset` closes the old descriptor and then takes over the new one. -/
theorem reset_eq (h : s.Owned) (i : ι) (newValue : Int) :
    s.reset i newValue = (s.reset i (-1)).setFd i newValue := by
  have hloose : s.loose.filter (· ≠ -1) = s.loose := by
    rw [List.filter_eq_self]
    intro fd hfd
    have := h.nonneg fd hfd
    exact decide_eq_true (by omega)
  simp only [reset, setFd, Function.update_idem]
  split
  · simp only [deleterClose, close]
    split <;> simp only [hloose]
  · simp only [hloose]

theorem log_reset (i : ι) (newValue : Int) :
    (s.reset i newValue).log = if 0 ≤ s.get i then .give (s.get i) :: s.log else s.log := by
  rw [reset]
  split
  · next hi =>
      rw [deleterClose, if_pos hi]
      rfl
  · rfl

theorem loose_reset (i : ι) (newValue : Int) :
    (s.reset i newValue).loose = s.loose.filter (· ≠ newValue) := by
  simp only [reset, deleterClose, setFd, close]
  split <;> rfl

theorem objects_reset (i : ι) (newValue : Int) :
    (s.reset i newValue).objects = Function.update s.objects i (some newValue) := by
  simp only [reset, deleterClose, setFd, close]
  split <;> rfl

namespace Owned

/-- An object without a descriptor takes over one that the program holds, or none. -/
theorem setFd (h : s.Owned) {i : ι} {value : Int} (hi : s.get i < 0)
    (hvalue : value < 0 ∨ value ∈ s.loose) : (s.setFd i value).Owned := by
  rcases hvalue with hneg | hmem
  · refine h.same rfl (h.nonneg_filter value) fun o fd => ?_
    cases o with
    | none =>
        refine owns_setFd_none.trans (and_iff_left_of_imp fun hfd heq => ?_)
        have := h.nonneg fd hfd
        omega
    | some j =>
        by_cases hj : j = i
        · rw [hj, owns_setFd_self]
          refine iff_of_false (fun hv => ?_) (not_owns hi fd)
          omega
        · exact owns_setFd_ne hj
  · have howner : s.Owns none value := hmem
    refine h.hand (b := some i) rfl (h.nonneg_filter value) howner fun o fd => ?_
    by_cases hfd : fd = value
    · rw [hfd, if_pos rfl]
      cases o with
      | none =>
          rw [owns_setFd_none]
          exact iff_of_false (fun ho => ho.2 rfl) (by simp)
      | some j =>
          by_cases hj : j = i
          · rw [hj, owns_setFd_self]
            exact iff_of_true ⟨h.nonneg value hmem, rfl⟩ rfl
          · rw [owns_setFd_ne hj]
            refine iff_of_false (fun ho => ?_) fun heq => hj (Option.some.inj heq)
            cases h.one _ _ _ ho howner
    · rw [if_neg hfd]
      cases o with
      | none => exact owns_setFd_none.trans (and_iff_left hfd)
      | some j =>
          by_cases hj : j = i
          · rw [hj, owns_setFd_self]
            exact iff_of_false (fun ho => hfd ho.2) (not_owns hi fd)
          · exact owns_setFd_ne hj

theorem release (h : s.Owned) (i : ι) : (s.release i).2.Owned := by
  have hloose : ∀ fd ∈ (s.release i).2.loose, 0 ≤ fd := by
    intro fd hfd
    rcases owns_release_none.1 hfd with hold | hold
    · exact hold.1
    · exact h.nonneg fd hold
  by_cases hi : 0 ≤ s.get i
  · have howner : s.Owns (some i) (s.get i) := ⟨hi, objects_of_get hi⟩
    refine h.hand (b := none) rfl hloose howner fun o fd => ?_
    by_cases hfd : fd = s.get i
    · rw [hfd, if_pos rfl]
      cases o with
      | none => exact iff_of_true (owns_release_none.2 (.inl howner)) rfl
      | some j =>
          refine iff_of_false (fun ho => ?_) (by simp)
          by_cases hj : j = i
          · exact not_owns_release_self i _ (hj ▸ ho)
          · exact hj (Option.some.inj (h.one _ _ _ ((owns_release_ne hj).1 ho) howner))
    · rw [if_neg hfd]
      cases o with
      | none =>
          rw [owns_release_none]
          exact or_iff_right fun ho => hfd (get_of_objects ho.2).symm
      | some j =>
          by_cases hj : j = i
          · rw [hj]
            exact iff_of_false (not_owns_release_self i fd) fun ho => hfd (get_of_objects ho.2).symm
          · exact owns_release_ne hj
  · refine h.same rfl hloose fun o fd => ?_
    have hnot := not_owns (Int.not_le.1 hi) fd
    cases o with
    | none =>
        rw [owns_release_none]
        exact or_iff_right hnot
    | some j =>
        by_cases hj : j = i
        · rw [hj]
          exact iff_of_false (not_owns_release_self i fd) hnot
        · exact owns_release_ne hj

/-- The old descriptor is closed and the object has none. -/
theorem reset (h : s.Owned) (i : ι) : (s.reset i (-1)).Owned := by
  have hloose : ∀ fd ∈ (s.reset i (-1)).loose, 0 ≤ fd := by
    rw [loose_reset]
    exact h.nonneg_filter (-1)
  have howns : ∀ o fd, (s.reset i (-1)).Owns o fd ↔ o ≠ some i ∧ s.Owns o fd := by
    intro o fd
    cases o with
    | none =>
        rw [Owns, Owns, loose_reset, List.mem_filter, decide_eq_true_iff]
        constructor
        · exact fun hfd => ⟨by simp, hfd.1⟩
        · intro hfd
          have := h.nonneg fd hfd.2
          exact ⟨hfd.2, by omega⟩
    | some j =>
        rw [Owns, Owns, objects_reset]
        by_cases hj : j = i
        · rw [hj, Function.update_self]
          refine iff_of_false (fun hfd => ?_) fun hfd => hfd.1 rfl
          have := Option.some.inj hfd.2
          omega
        · rw [Function.update_of_ne hj]
          exact (and_iff_right fun heq => hj (Option.some.inj heq)).symm
  by_cases hi : 0 ≤ s.get i
  · have howner : s.Owns (some i) (s.get i) := ⟨hi, objects_of_get hi⟩
    refine h.closed hloose howner ?_ fun o fd => ?_
    · rw [log_reset, if_pos hi]
    · rw [howns]
      refine and_congr_left fun ho => not_congr ⟨fun heq => ?_, fun heq => ?_⟩
      · rw [heq] at ho
        exact (get_of_objects ho.2).symm
      · rw [heq] at ho
        exact h.one _ _ _ ho howner
  · refine h.same ?_ hloose fun o fd => ?_
    · rw [log_reset, if_neg hi]
    · rw [howns]
      refine and_iff_right_of_imp fun ho heq => ?_
      rw [heq] at ho
      exact not_owns (Int.not_le.1 hi) fd ho

theorem reset_to (h : s.Owned) {i : ι} {value : Int} (hvalue : value < 0 ∨ value ∈ s.loose) :
    (s.reset i value).Owned := by
  rw [reset_eq h]
  apply (h.reset i).setFd
  · rw [get, objects_reset, Function.update_self]
    decide
  · rcases hvalue with hneg | hmem
    · exact .inl hneg
    · have := h.nonneg value hmem
      rw [loose_reset]
      exact .inr (List.mem_filter.2 ⟨hmem, decide_eq_true (by omega)⟩)

/-- The descriptor that `Release` returns is now held by the program. -/
theorem released (i : ι) : (s.release i).1 < 0 ∨ (s.release i).1 ∈ (s.release i).2.loose := by
  rw [Process.release]
  dsimp only
  by_cases hi : 0 ≤ s.get i
  · rw [if_pos hi]
    exact .inr List.mem_cons_self
  · exact .inl (Int.not_le.1 hi)

theorem destroy (h : s.Owned) (i : ι) : (s.destroy i).Owned := by
  have hreset := h.reset i
  refine hreset.same rfl hreset.nonneg fun o fd => ?_
  cases o with
  | none => exact Iff.rfl
  | some j =>
      by_cases hj : j = i
      · rw [hj]
        have hnone : (s.destroy i).objects i = none := by simp [Process.destroy]
        have hreset : (s.reset i (-1)).get i < 0 := by
          rw [get, objects_reset, Function.update_self]
          decide
        refine iff_of_false (fun hfd => ?_) (not_owns hreset fd)
        exact Option.some_ne_none fd (hfd.2.symm.trans hnone)
      · have hkeep : (s.destroy i).objects j = (s.reset i (-1)).objects j := by
          simp [Process.destroy, hj]
        rw [Owns, Owns, hkeep]

theorem step (h : s.Owned) {op : Op ι} (hop : s.Proper op) : (s.step op).Owned := by
  cases op with
  | opens fd => exact h.opens hop.1 hop.2 rfl rfl rfl
  | closes fd =>
      have howner : s.Owns none fd := hop
      refine h.closed (h.nonneg_filter fd) howner rfl fun o fd' => ?_
      cases o with
      | none => exact List.mem_filter.trans (and_comm.trans (and_congr_left fun _ => decide_eq_true_iff))
      | some j =>
          refine (and_iff_right_of_imp fun ho heq => ?_).symm
          rw [heq] at ho
          have hold : s.Owns (some j) fd := ho
          cases h.one _ _ _ hold howner
  | construct i value =>
      have hi : s.get i < 0 := by
        rw [get, hop.1]
        decide
      exact h.setFd hi hop.2
  | constructDefault i =>
      have hi : s.get i < 0 := by
        rw [get, show s.objects i = none from hop]
        decide
      exact h.setFd hi (.inl (by decide))
  | destroy i => exact h.destroy i
  | release i => exact h.release i
  | moveConstruct i rhs =>
      have hne : i ≠ rhs := fun heq => hop.2 (heq ▸ hop.1)
      have hi : (s.release rhs).2.get i < 0 := by
        rw [get, objects_release_ne hne, hop.1]
        decide
      exact (h.release rhs).setFd hi (released rhs)
  | moveAssign i rhs => exact (h.release rhs).reset_to (released rhs)

omit [DecidableEq ι] in
theorem start : (start : Process ι).Owned := by
  refine ⟨⟨[], rfl, List.nodup_nil, fun fd => ?_⟩, fun o o' fd ho => ?_, fun fd hfd => ?_⟩
  · refine iff_of_false List.not_mem_nil ?_
    rintro ⟨o, ho⟩
    cases o with
    | none => exact List.not_mem_nil ho
    | some i => exact Option.some_ne_none fd ho.2.symm
  · cases o with
    | none => exact absurd ho List.not_mem_nil
    | some i => exact absurd ho.2.symm (Option.some_ne_none fd)
  · exact absurd hfd List.not_mem_nil

theorem run (h : s.Owned) {ops : List (Op ι)} (hops : s.Keeps ops) : (s.run ops).Owned := by
  induction ops generalizing s with
  | nil => exact h
  | cons op ops ih => exact ih (h.step hops.1) hops.2

end Owned

/-- **Every open descriptor has one owner.** In every run of a program that keeps to the rules each
`close` is for an open descriptor, each open descriptor is held by one object or by the program, and
once there is no object with a descriptor and the program holds none, everything is closed. -/
theorem one_owner {ops : List (Op ι)} (hops : (start : Process ι).Keeps ops) :
    (start.run ops).Owned ∧
      ((∀ o fd, ¬ (start.run ops).Owns o fd) → Settled (start.run ops).log) := by
  have h := Owned.start.run hops
  refine ⟨h, fun hnone => ?_⟩
  obtain ⟨fds, hheld, -, hmem⟩ := h.opened
  cases fds with
  | nil => exact hheld
  | cons fd fds =>
      obtain ⟨o, ho⟩ := (hmem fd).1 List.mem_cons_self
      exact absurd ho (hnone o fd)

/-- The number 3 is handed out again after the first assignment has closed it; the second one is to
the object itself. -/
def moved : List (Op Nat) :=
  [.opens 3, .construct 0 3, .opens 4, .construct 1 4, .moveAssign 0 1, .opens 3, .construct 2 3,
    .moveAssign 0 0, .release 2, .closes 3, .destroy 0, .destroy 1, .destroy 2]

theorem one_owner_moved : (start.run moved).Owned ∧ Settled (start.run moved).log := by
  have h := @one_owner Nat _ moved (by decide)
  exact ⟨h.1, by decide⟩

-- two objects made from the same number: the second destructor closes what is not open
example : held (start.run [.opens 3, .construct 0 3, .construct 1 3, .destroy 0,
    .destroy (1 : Nat)]).log = none := by decide

end Process

end CUtils.UniqueFds
