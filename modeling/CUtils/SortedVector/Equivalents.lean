import CUtils.Lib.StateRun
import CUtils.SortedVector.WeakOrder

/-!
# Equivalent elements

`operator<` may leave elements side by side that `operator==` tells apart, such as records sorted by
one key. `IndexOf` looks at the first element that is not below the item, and `unique_copy` at the
element copied last, so an equal element behind an equivalent one is missed. Here the order is a
strict weak one and the equality any equivalence that is finer (`Comparable`).

A vector is `Right` if the lookups find what is stored and, where duplicates are forbidden, no two of
its elements are equal. In a vector in order all lookups are right exactly if equivalent elements
are equal (`Discrete`). So a run stays right exactly as long as only such items come together
(`Op.Discrete`).
-/

namespace CUtils.SortedVectors

open BinarySearch StateRun

variable {α : Type} [LT α] [BEq α]

/-- Equivalent elements are equal. -/
def Discrete (l : List α) : Prop := ∀ x ∈ l, ∀ y ∈ l, Equivalent x y → (x == y) = true

theorem Discrete.subset {l l' : List α} (h : Discrete l) (hsub : ∀ x ∈ l', x ∈ l) : Discrete l' :=
  fun x hx y hy => h x (hsub x hx) y (hsub y hy)

/-- No two elements are equal. -/
def NoTwins (l : List α) : Prop := l.Pairwise fun a b => ¬ (a == b) = true

variable [DecidableLT α] [Comparable α]

/-- What `lower_bound` finds is not below the item, and not above anything else that is not. -/
theorem lowerBound_spec {l : List α} (hl : InSequence l) {item f : α}
    (hf : l[lowerBound l item]? = some f) :
    ¬ f < item ∧ ∀ y ∈ l, ¬ y < item → ¬ y < f := by
  have hpart := partitioned_lt hl item
  rw [lowerBound, partitionPoint_eq hpart] at hf
  refine ⟨fun hlt => ?_, fun y hy hnot => ?_⟩
  · have := (hpart.getElem?_iff hf).1 (by simpa using hlt)
    omega
  · obtain ⟨j, hj⟩ := List.mem_iff_getElem?.1 hy
    have hge : ¬ j < l.countP fun x => x < item := fun hlt => hnot (by
      simpa using (hpart.getElem?_iff hj).2 hlt)
    rcases Nat.eq_or_lt_of_le (Nat.not_lt.1 hge) with heq | hlt
    · rw [← heq, hf] at hj
      obtain rfl := Option.some.inj hj
      exact irrefl f
    · obtain ⟨hi, rfl⟩ := List.getElem?_eq_some_iff.1 hf
      obtain ⟨hj', rfl⟩ := List.getElem?_eq_some_iff.1 hj
      exact List.pairwise_iff_getElem.1 hl _ _ hi hj' hlt

/-- If something stored is not below the item, `lower_bound` finds something. -/
theorem exists_lowerBound {l : List α} (hl : InSequence l) {item y : α} (hy : y ∈ l)
    (hnot : ¬ y < item) : ∃ f, l[lowerBound l item]? = some f ∧ f ∈ l := by
  have hpart := partitioned_lt hl item
  obtain ⟨j, hj⟩ := List.mem_iff_getElem?.1 hy
  have hge : ¬ j < l.countP fun x => x < item := fun hlt => hnot (by
    simpa using (hpart.getElem?_iff hj).2 hlt)
  obtain ⟨hj', -⟩ := List.getElem?_eq_some_iff.1 hj
  rw [lowerBound, partitionPoint_eq hpart]
  have hi : (l.countP fun x => x < item) < l.length := by omega
  exact ⟨_, List.getElem?_eq_getElem hi, List.getElem_mem hi⟩

/-! ## Lookups -/

variable {b b' : Bool}

omit [Comparable α] in
theorem indexOf_ne_notFound (v : SortedVector α b) (item : α) :
    v.indexOf item ≠ notFound ↔
      ∃ f, v.vec[lowerBound v.vec item]? = some f ∧ (f == item) = true := by
  rw [SortedVector.indexOf]
  by_cases hempty : v.vec.isEmpty = true
  · rw [if_pos hempty, List.isEmpty_iff.1 hempty]
    simp
  · rw [if_neg hempty]
    cases hf : v.vec[lowerBound v.vec item]? with
    | none => simp [hf]
    | some f =>
        simp only [hf]
        by_cases hbeq : (f == item) = true
        · rw [if_pos hbeq]
          refine iff_of_true ?_ ⟨f, rfl, hbeq⟩
          unfold notFound
          omega
        · rw [if_neg hbeq]
          refine iff_of_false (fun h => h rfl) ?_
          rintro ⟨f', hf', hbeq'⟩
          obtain rfl := Option.some.inj hf'
          exact hbeq hbeq'

/-- The lookup of an item is right. -/
def Finds (v : SortedVector α b) (item : α) : Prop :=
  v.indexOf item ≠ notFound ↔ ∃ x ∈ v.vec, (x == item) = true

theorem finds_of_discrete {v : SortedVector α b} (hl : InSequence v.vec) (h : Discrete v.vec)
    (item : α) : Finds v item := by
  rw [Finds, indexOf_ne_notFound]
  constructor
  · rintro ⟨f, hf, hbeq⟩
    exact ⟨f, List.mem_of_getElem? hf, hbeq⟩
  · rintro ⟨x, hx, hbeq⟩
    have hequiv := equivalent_of_beq hbeq
    obtain ⟨f, hf, hmem⟩ := exists_lowerBound hl hx hequiv.1
    obtain ⟨hnot, hfirst⟩ := lowerBound_spec hl hf
    -- the first of its equivalents is equivalent to what is stored, and so equal to it
    have hfx : ¬ f < x := fun hlt => hnot ((hequiv.lt_iff f).1 hlt)
    have hfeq : (f == x) = true := h f hmem x hx ⟨hfx, hfirst x hx hequiv.1⟩
    exact ⟨f, hf, BEq.trans hfeq hbeq⟩

/-- **All lookups are right exactly if equivalent elements are equal.** -/
theorem forall_finds_iff {v : SortedVector α b} (hl : InSequence v.vec) :
    (∀ item, Finds v item) ↔ Discrete v.vec := by
  refine ⟨fun h x hx y hy hequiv => ?_, fun h item => finds_of_discrete hl h item⟩
  have hfound : ∀ z ∈ v.vec, ∃ f, v.vec[lowerBound v.vec z]? = some f ∧ (f == z) = true :=
    fun z hz => (indexOf_ne_notFound v z).1 ((h z).2 ⟨z, hz, BEq.rfl⟩)
  -- both are looked up at the same place
  have hplace : lowerBound v.vec x = lowerBound v.vec y := by
    rw [lowerBound, lowerBound, partitionPoint_eq (partitioned_lt hl x),
      partitionPoint_eq (partitioned_lt hl y)]
    refine List.countP_congr fun z _ => ?_
    rw [decide_eq_true_eq, decide_eq_true_eq]
    exact hequiv.lt_iff z
  obtain ⟨f, hf, hfx⟩ := hfound x hx
  obtain ⟨f', hf', hfy⟩ := hfound y hy
  rw [hplace, hf'] at hf
  obtain rfl := Option.some.inj hf
  exact BEq.trans (BEq.symm hfx) hfy

/-- The lookups are right, and nothing is stored twice that must not be. -/
structure Right (v : SortedVector α b) : Prop where
  finds : ∀ item, Finds v item
  noTwins : b = false → NoTwins v.vec

/-! ## What an operation makes of the items -/

/-- In order, with equivalent elements equal, and without equal elements where they are forbidden. -/
structure Tidy (b : Bool) (l : List α) : Prop where
  inSequence : InSequence l
  discrete : Discrete l
  noTwins : b = false → NoTwins l

theorem Tidy.right {v : SortedVector α b} (h : Tidy b v.vec) : Right v :=
  ⟨finds_of_discrete h.inSequence h.discrete, h.noTwins⟩

/-- The items `t` have come together in the vector `l`. -/
structure Settled (b : Bool) (t l : List α) : Prop where
  inSequence : InSequence l
  discrete_iff : Discrete l ↔ Discrete t
  noTwins : Discrete t → b = false → NoTwins l

omit [DecidableLT α] [Comparable α] in
theorem Settled.tidy {t l : List α} (h : Settled b t l) (ht : Discrete t) : Tidy b l :=
  ⟨h.inSequence, h.discrete_iff.2 ht, h.noTwins ht⟩

omit [DecidableLT α] [Comparable α] in
theorem discrete_congr {l l' : List α} (h : ∀ x, x ∈ l ↔ x ∈ l') : Discrete l ↔ Discrete l' :=
  ⟨fun hl => hl.subset fun x hx => (h x).2 hx, fun hl => hl.subset fun x hx => (h x).1 hx⟩

omit [DecidableLT α] in
/-- Everything has an equal one in the copy. -/
theorem exists_mem_destutter' {a x : α} {l : List α} (hx : x ∈ a :: l) :
    ∃ y ∈ l.destutter' (fun a b => ¬ (a == b) = true) a, (y == x) = true := by
  induction l generalizing a with
  | nil =>
      obtain rfl := List.mem_singleton.1 hx
      exact ⟨x, by simp, BEq.rfl⟩
  | cons c l ih =>
      by_cases hac : (a == c) = true
      · rw [List.destutter'_cons_neg _ (not_not.2 hac)]
        rcases List.mem_cons.1 hx with rfl | hx
        · exact ih (by simp)
        · rcases List.mem_cons.1 hx with rfl | hx
          · exact ⟨a, List.mem_destutter' _ _ _, hac⟩
          · exact ih (by simp [hx])
      · rw [List.destutter'_cons_pos _ hac]
        rcases List.mem_cons.1 hx with rfl | hx
        · exact ⟨x, by simp, BEq.rfl⟩
        · obtain ⟨y, hy, hyx⟩ := ih hx
          exact ⟨y, List.mem_cons_of_mem a hy, hyx⟩

omit [DecidableLT α] in
theorem exists_mem_uniqueCopy {x : α} {l : List α} (hx : x ∈ l) :
    ∃ y ∈ uniqueCopy l, (y == x) = true := by
  cases l with
  | nil => exact absurd hx (by simp)
  | cons a l => exact exists_mem_destutter' hx

omit [DecidableLT α] in
/-- A part of the items in which each has an equal one is as discrete as all of them. -/
theorem discrete_of_twins {l l' : List α} (hsub : ∀ x ∈ l', x ∈ l)
    (htwin : ∀ x ∈ l, ∃ y ∈ l', (y == x) = true) : Discrete l' ↔ Discrete l := by
  refine ⟨fun h x hx y hy hequiv => ?_, fun h => h.subset hsub⟩
  obtain ⟨x', hx', hxx⟩ := htwin x hx
  obtain ⟨y', hy', hyy⟩ := htwin y hy
  have hequiv' : Equivalent x' y' :=
    ((equivalent_of_beq hxx).trans hequiv).trans (equivalent_of_beq hyy).symm
  exact BEq.trans (BEq.trans (BEq.symm hxx) (h x' hx' y' hy' hequiv')) hyy

omit [DecidableLT α] in
theorem discrete_uniqueCopy (l : List α) : Discrete (uniqueCopy l) ↔ Discrete l :=
  discrete_of_twins (fun _ hx => (List.destutter_sublist _ l).subset hx)
    fun _ hx => exists_mem_uniqueCopy hx

omit [DecidableLT α] in
/-- Among discrete elements in order, those that are equal stand side by side. -/
theorem noTwins_destutter' {a : α} {l : List α} (hl : InSequence (a :: l)) (h : Discrete (a :: l)) :
    NoTwins (l.destutter' (fun a b => ¬ (a == b) = true) a) := by
  induction l generalizing a with
  | nil => exact List.pairwise_singleton _ _
  | cons c l ih =>
      obtain ⟨hfirst, hrest⟩ := List.pairwise_cons.1 hl
      by_cases hac : (a == c) = true
      · rw [List.destutter'_cons_neg _ (not_not.2 hac)]
        refine ih (List.pairwise_cons.2 ⟨fun y hy => hfirst y (by simp [hy]),
          (List.pairwise_cons.1 hrest).2⟩) (h.subset fun y hy => ?_)
        rcases List.mem_cons.1 hy with rfl | hy
        · simp
        · simp [hy]
      · rw [List.destutter'_cons_pos _ hac]
        refine List.pairwise_cons.2 ⟨fun y hy hay => ?_, ih hrest (h.subset fun y hy => by simp [hy])⟩
        have hmem : y ∈ c :: l := (List.destutter'_sublist _ _ _).subset hy
        have hlt : a < c := by
          by_contra hnot
          exact hac (h a (by simp) c (by simp) ⟨hnot, hfirst c (by simp)⟩)
        have hcy : ¬ y < c := by
          rcases List.mem_cons.1 hmem with rfl | hmem
          · exact irrefl y
          · exact (List.pairwise_cons.1 hrest).1 y hmem
        -- `a` is below everything from `c` on
        exact not_lt_trans hcy (equivalent_of_beq hay).1 hlt

omit [DecidableLT α] in
/-- The two ways an operation ends. -/
theorem settled_finish {t l r : List α} (hl : InSequence l) (ht : ∀ x, x ∈ l ↔ x ∈ t)
    (hr : r = if b then l else uniqueCopy l) : Settled b t r := by
  subst hr
  cases b with
  | true => exact ⟨hl, discrete_congr ht, fun _ h => absurd h (by simp)⟩
  | false =>
      refine ⟨List.Pairwise.sublist (List.destutter_sublist _ l) hl,
        (discrete_uniqueCopy l).trans (discrete_congr ht), fun h _ => ?_⟩
      cases l with
      | nil => exact List.Pairwise.nil
      | cons a l => exact noTwins_destutter' hl ((discrete_congr ht).2 h)

omit [DecidableLT α] [Comparable α] in
/-- What is left of a tidy vector. -/
theorem Tidy.settled_sublist {l l' : List α} (h : Tidy b l) (hsub : l'.Sublist l) :
    Settled b l l' :=
  ⟨List.Pairwise.sublist hsub h.inSequence,
    iff_of_true (h.discrete.subset fun _ hx => hsub.subset hx) h.discrete,
    fun _ hb => List.Pairwise.sublist hsub (h.noTwins hb)⟩

/-! ## The operations -/

omit [DecidableLT α] in
theorem settled_ofVector (std : Sorting α) (invec : List α) :
    Settled b invec (SortedVector.ofVector std invec : SortedVector α b).vec := by
  by_cases hempty : invec.isEmpty = true
  · rw [SortedVector.ofVector, if_pos hempty, List.isEmpty_iff.1 hempty]
    refine settled_finish (l := []) List.Pairwise.nil (fun x => Iff.rfl) ?_
    cases b <;> rfl
  · rw [SortedVector.ofVector, if_neg hempty]
    refine settled_finish (std.sorted invec) (fun x => (std.perm invec).mem_iff) ?_
    cases b <;> rfl

omit [DecidableLT α] in
theorem settled_copyOf {v : SortedVector α b'} (h : Tidy b' v.vec) :
    Settled b v.vec (SortedVector.copyOf v : SortedVector α b).vec := by
  cases b' with
  | true =>
      refine settled_finish h.inSequence (fun x => Iff.rfl) ?_
      cases b <;> rfl
  | false => exact ⟨h.inSequence, Iff.rfl, fun _ _ => h.noTwins rfl⟩

theorem settled_add {v : SortedVector α b} (h : Tidy b v.vec) (item : α) :
    Settled b (item :: v.vec) (v.add item).2.vec := by
  have hfinds := finds_of_discrete h.inSequence h.discrete item
  rw [SortedVector.add]
  by_cases hfound : v.indexOf item ≠ notFound ∧ (!b) = true
  · -- what is equivalent to the item is equal to what was found
    obtain ⟨f, hf, hfi⟩ := hfinds.1 hfound.1
    have hitem : ∀ y ∈ v.vec, Equivalent item y → (item == y) = true := fun y hy hequiv =>
      BEq.trans (BEq.symm hfi) (h.discrete f hf y hy ((equivalent_of_beq hfi).trans hequiv))
    have htogether : Discrete (item :: v.vec) := by
      intro x hx y hy hequiv
      rcases List.mem_cons.1 hx with hxi | hx
      · rw [hxi] at hequiv ⊢
        rcases List.mem_cons.1 hy with hyi | hy
        · rw [hyi]
          exact BEq.rfl
        · exact hitem y hy hequiv
      · rcases List.mem_cons.1 hy with hyi | hy
        · rw [hyi] at hequiv ⊢
          exact BEq.symm (hitem x hx hequiv.symm)
        · exact h.discrete x hx y hy hequiv
    rw [if_pos hfound]
    exact ⟨h.inSequence, iff_of_true h.discrete htogether, fun _ => h.noTwins⟩
  · have hpart := partitioned_not_gt h.inSequence item
    have hcount : (v.vec.countP fun x => !(item < x)) ≤ v.vec.length := List.countP_le_length
    have hmem : ∀ x, x ∈ v.vec.insertIdx (v.vec.countP fun x => !(item < x)) item ↔
        x ∈ item :: v.vec := fun x => (List.perm_insertIdx item v.vec hcount).mem_iff
    rw [if_neg hfound, upperBound, partitionPoint_eq hpart]
    refine ⟨hpart.insertIdx_pairwise h.inSequence (fun x _ hx => by simpa using hx)
      (fun x _ hx => ?_), discrete_congr hmem, fun _ hb => ?_⟩
    · have hlt : item < x := by simpa using hx
      exact fun hgt => irrefl x (trans_of (· < ·) hgt hlt)
    · have habsent : ∀ x ∈ v.vec, ¬ (x == item) = true := by
        intro x hx hbeq
        exact hfound ⟨hfinds.2 ⟨x, hx, hbeq⟩, by rw [hb]; rfl⟩
      exact hpart.insertIdx_pairwise (h.noTwins hb) (fun x hx _ => habsent x hx)
        fun x hx _ hbeq => habsent x hx (BEq.symm hbeq)

theorem settled_merge {v w : SortedVector α b} (hv : InSequence v.vec) (hw : InSequence w.vec) :
    Settled b (v.vec ++ w.vec) (v.merge w).2.vec := by
  refine settled_finish (inSequence_stdMerge hv hw)
    (fun x => (List.merge_perm_append (fun x y => !decide (y < x))).mem_iff) ?_
  cases b <;> rfl

omit [DecidableLT α] in
/-- Everything has an equal one in the vector it was put into. -/
theorem exists_mem_ofVector (std : Sorting α) {invec : List α} {x : α} (hx : x ∈ invec) :
    ∃ y ∈ (SortedVector.ofVector std invec : SortedVector α b).vec, (y == x) = true := by
  have hne : ¬ invec.isEmpty = true := fun h => by
    rw [List.isEmpty_iff.1 h] at hx
    exact absurd hx (by simp)
  have hmem : x ∈ std.sort invec := (std.perm invec).mem_iff.2 hx
  rw [SortedVector.ofVector, if_neg hne]
  cases b with
  | true => exact ⟨x, hmem, BEq.rfl⟩
  | false => exact exists_mem_uniqueCopy hmem

omit [DecidableLT α] [Comparable α] in
theorem mem_of_mem_ofVector (std : Sorting α) {invec : List α} {x : α}
    (hx : x ∈ (SortedVector.ofVector std invec : SortedVector α b).vec) : x ∈ invec := by
  by_cases hempty : invec.isEmpty = true
  · rw [SortedVector.ofVector, if_pos hempty] at hx
    exact absurd hx (by simp [SortedVector.empty])
  · rw [SortedVector.ofVector, if_neg hempty] at hx
    refine (std.perm invec).mem_iff.1 ?_
    cases b with
    | true => exact hx
    | false => exact (List.destutter_sublist _ _).subset hx

theorem settled_mergeVector (std : Sorting α) {v : SortedVector α b} (h : InSequence v.vec)
    (invec : List α) : Settled b (v.vec ++ invec) (v.mergeVector std invec).2.vec := by
  have hmerge := settled_merge (w := .ofVector std invec) h (settled_ofVector std invec).inSequence
  have hsame : Discrete (v.vec ++ (SortedVector.ofVector std invec : SortedVector α b).vec) ↔
      Discrete (v.vec ++ invec) := discrete_of_twins (fun x hx => ?_) (fun x hx => ?_)
  · exact ⟨hmerge.inSequence, hmerge.discrete_iff.trans hsame,
      fun ht => hmerge.noTwins (hsame.2 ht)⟩
  · rcases List.mem_append.1 hx with hx | hx
    · exact List.mem_append_left _ hx
    · exact List.mem_append_right _ (mem_of_mem_ofVector std hx)
  · rcases List.mem_append.1 hx with hx | hx
    · exact ⟨x, List.mem_append_left _ hx, BEq.rfl⟩
    · obtain ⟨y, hy, hyx⟩ := exists_mem_ofVector std hx
      exact ⟨y, List.mem_append_right _ hy, hyx⟩

/-! ## Runs -/

/-- The items that come together in one vector. -/
def Op.together (s : Vectors α) : Op α → List α
  | .construct _ invec => invec
  | .copy _ rhs | .assign _ rhs => (s rhs).vec
  | .add x item => item :: (s x).vec
  | .mergeVector x invec => (s x).vec ++ invec
  | .merge b i j => (s (b, i)).vec ++ (s (b, j)).vec
  | .erase x _ | .popBack x => (s x).vec
  | .clear _ => []

/-- Only items that are equal or not equivalent come together. -/
def Op.Discrete (s : Vectors α) (op : Op α) : Prop := SortedVectors.Discrete (op.together s)

/-- **One step** changes one vector, in which the items come together. -/
theorem step_settled (std : Sorting α) {s : Vectors α} (h : ∀ x, Tidy x.1 (s x).vec) (op : Op α) :
    ∃ (x : Name) (v : SortedVector α x.1), step std s op = Function.update s x v ∧
      Settled x.1 (op.together s) v.vec := by
  cases op with
  | construct x invec => exact ⟨x, _, rfl, settled_ofVector std invec⟩
  | copy x rhs => exact ⟨x, _, rfl, settled_copyOf (h rhs)⟩
  | assign x rhs =>
      by_cases heq : x = rhs
      · refine ⟨rhs, s rhs, ?_, (h rhs).settled_sublist (List.Sublist.refl _)⟩
        rw [step, if_pos heq, Function.update_eq_self]
      · refine ⟨x, .copyOf (s rhs), ?_, settled_copyOf (h rhs)⟩
        rw [step, if_neg heq]
  | add x item => exact ⟨x, _, rfl, settled_add (h x) item⟩
  | mergeVector x invec => exact ⟨x, _, rfl, settled_mergeVector std (h x).inSequence invec⟩
  | merge b i j =>
      exact ⟨(b, i), _, rfl, settled_merge (h (b, i)).inSequence (h (b, j)).inSequence⟩
  | erase x index =>
      refine ⟨x, _, rfl, (h x).settled_sublist ?_⟩
      rw [SortedVector.erase]
      split
      · exact List.Sublist.refl _
      · exact List.eraseIdx_sublist _ _
  | popBack x => exact ⟨x, _, rfl, (h x).settled_sublist (List.dropLast_sublist _)⟩
  | clear x =>
      exact ⟨x, _, rfl, List.Pairwise.nil, Iff.rfl, fun _ _ => List.Pairwise.nil⟩

theorem inSequence_step (std : Sorting α) {s : Vectors α} (h : ∀ x, Tidy x.1 (s x).vec) (op : Op α)
    (y : Name) : InSequence (step std s op y).vec := by
  obtain ⟨x, v, hstep, hv⟩ := step_settled std h op
  rw [hstep]
  by_cases hy : y = x
  · subst hy
    rw [Function.update_self]
    exact hv.inSequence
  · rw [Function.update_of_ne hy]
    exact (h y).inSequence

theorem right_step_iff (std : Sorting α) {s : Vectors α} (h : ∀ x, Tidy x.1 (s x).vec) (op : Op α) :
    (∀ y, Right (step std s op y)) ↔ op.Discrete s := by
  obtain ⟨x, v, hstep, hv⟩ := step_settled std h op
  rw [hstep]
  constructor
  · intro hall
    have hx := hall x
    rw [Function.update_self] at hx
    exact hv.discrete_iff.1 ((forall_finds_iff hv.inSequence).1 hx.finds)
  · intro hop y
    by_cases hy : y = x
    · subst hy
      rw [Function.update_self]
      exact (hv.tidy hop).right
    · rw [Function.update_of_ne hy]
      exact (h y).right

theorem Right.tidy {v : SortedVector α b} (h : Right v) (hv : InSequence v.vec) : Tidy b v.vec :=
  ⟨hv, (forall_finds_iff hv).1 h.finds, h.noTwins⟩

omit [DecidableLT α] [Comparable α] in
theorem tidy_nil (b : Bool) : Tidy b ([] : List α) :=
  ⟨List.Pairwise.nil, fun _ hx => (nomatch hx), fun _ => List.Pairwise.nil⟩

/-- **Lookups are right and duplicates are refused** throughout a run, if and only if only items that
are equal or not equivalent ever come together in one vector. -/
theorem right_iff_discrete (std : Sorting α) (ops : List (Op α)) :
    (∀ pre, pre <+: ops → ∀ x, Right (run std start pre x)) ↔
      Along (fun s op => op.Discrete s) (step std) start ops := by
  refine Along.prefixes_iff (P := fun _ _ => True) (K := fun s : Vectors α => ∀ x, InSequence (s x).vec)
    (G := fun s : Vectors α => ∀ x, Right (s x)) (fun s op _ hK hG => ?_) (fun s op _ hK hG => ?_) ?_ ?_ ?_
  · exact inSequence_step std (fun x => (hG x).tidy (hK x)) op
  · exact right_step_iff std (fun x => (hG x).tidy (hK x)) op
  · exact fun x => (tidy_nil x.1).inSequence
  · exact fun x => (tidy_nil (α := α) x.1).right (v := start x)
  · exact Along.of_forall (fun _ _ _ => trivial) _

/-! ## Records sorted by a key -/

structure Keyed where
  key : Nat
  value : Nat
  deriving DecidableEq

instance : LT Keyed := ⟨fun a b => a.key < b.key⟩

instance : DecidableLT Keyed := fun a b => inferInstanceAs (Decidable (a.key < b.key))

theorem keyed_lt {a b : Keyed} : a < b ↔ a.key < b.key := Iff.rfl

instance : Comparable Keyed where
  order := {
    irrefl := fun a => Nat.lt_irrefl a.key
    trans := fun _ _ _ h h' => Nat.lt_trans h h'
    incomp_trans := fun a b c => by
      simp only [keyed_lt]
      omega }
  equiv := inferInstance
  not_lt_of_beq := fun {a b} h => by
    obtain rfl := eq_of_beq h
    exact Nat.lt_irrefl a.key

/-- A stable sort. -/
def keyedSort : Sorting Keyed where
  sort l := l.mergeSort fun a b => a.key ≤ b.key
  perm l := List.mergeSort_perm l _
  sorted l := by
    have hsorted : (l.mergeSort fun a b => a.key ≤ b.key).Pairwise
        fun a b => decide (a.key ≤ b.key) = true :=
      List.pairwise_mergeSort (fun a b c hab hbc => by simp only [decide_eq_true_eq] at *; omega)
        (fun a b => by simp only [Bool.or_eq_true, decide_eq_true_eq]; omega) l
    refine hsorted.imp fun {a b} hab => ?_
    rw [decide_eq_true_eq] at hab
    rw [keyed_lt]
    omega

instance (a b : Keyed) : Decidable (Equivalent a b) := inferInstanceAs (Decidable (_ ∧ _))

instance (l : List Keyed) : Decidable (Discrete l) :=
  inferInstanceAs (Decidable (∀ x ∈ l, ∀ y ∈ l, Equivalent x y → (x == y) = true))

instance (s : Vectors Keyed) (op : Op Keyed) : Decidable (op.Discrete s) :=
  inferInstanceAs (Decidable (Discrete _))

/-- The same record is added twice, with others between. -/
def addedAgain : List (Op Keyed) :=
  [.add (false, 0) ⟨2, 20⟩, .add (false, 0) ⟨1, 10⟩, .add (false, 0) ⟨3, 30⟩, .add (false, 0) ⟨2, 20⟩]

theorem right_iff_discrete_keyed : Right (run keyedSort start addedAgain (false, 0)) :=
  (right_iff_discrete keyedSort addedAgain).2 (by decide +kernel) addedAgain List.prefix_rfl (false, 0)

/-- The second record is behind one with its key, so it is not found, and added once more. -/
def addedBehind : List (Op Keyed) :=
  [.add (false, 0) ⟨1, 10⟩, .add (false, 0) ⟨1, 11⟩, .add (false, 0) ⟨1, 11⟩]

theorem equivalents_missed :
    (¬ ∀ ops x item, Finds (run keyedSort start ops x) item) ∧
      ¬ ∀ ops (x : Name), x.1 = false → NoTwins (run keyedSort start ops x).vec := by
  have hvec : (run keyedSort start addedBehind (false, 0)).vec = [⟨1, 10⟩, ⟨1, 11⟩, ⟨1, 11⟩] := by
    decide +kernel
  constructor
  · intro hall
    have hindex : (run keyedSort start addedBehind (false, 0)).indexOf ⟨1, 11⟩ = notFound := by
      decide +kernel
    refine (hall addedBehind (false, 0) ⟨1, 11⟩).2 ⟨⟨1, 11⟩, ?_, rfl⟩ hindex
    rw [hvec]
    decide
  · intro hall
    have htwins := hall addedBehind (false, 0) rfl
    rw [hvec] at htwins
    exact absurd htwins (by unfold NoTwins; decide)

end CUtils.SortedVectors
