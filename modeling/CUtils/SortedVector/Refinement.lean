import CUtils.Lib.StateRun
import CUtils.SortedVector.WeakOrder
import Mathlib.Data.Finset.Sort

/-!
# What a sorted vector is for

A vector that allows duplicates stands for a multiset and one that does not for a finite set
(`Contents`); the operations on these are the ones their names suggest. `Represents` says that a
vector holds such a collection, in order. Every operation takes vectors that represent collections
to vectors that represent the collections the abstract operation gives (`step_represents`), so
whole runs agree (`sortedVector_refines`).

The searches are right because the vector is sorted: then what is below the item, and what is not
above it, comes first, and binary search counts it.
-/

namespace CUtils.SortedVectors

open BinarySearch StateRun

variable {α : Type} [LinearOrder α]

/-! ## Collections -/

/-- What a vector of a kind stands for. -/
abbrev Contents (α : Type) : Bool → Type
  | true => Multiset α
  | false => Finset α

namespace Contents

variable {b b' : Bool}

def ofList : (b : Bool) → List α → Contents α b
  | true, l => (l : Multiset α)
  | false, l => l.toFinset

/-- Conversion between kinds: forget how often, or take each once. -/
def convert : {b b' : Bool} → Contents α b' → Contents α b
  | true, true, c => c
  | true, false, c => c.val
  | false, true, c => Multiset.toFinset c
  | false, false, c => c

def insert : {b : Bool} → α → Contents α b → Contents α b
  | true, a, c => a ::ₘ c
  | false, a, c => Insert.insert a c

/-- The sum of multisets, the union of sets. -/
def join : {b : Bool} → Contents α b → Contents α b → Contents α b
  | true, c, d => c + d
  | false, c, d => c ∪ d

/-- The elements in ascending order. -/
def sorted : {b : Bool} → Contents α b → List α
  | true, c => Multiset.sort c
  | false, c => Finset.sort c

/-- Take one `a` away. -/
def remove : {b : Bool} → Contents α b → α → Contents α b
  | true, c, a => Multiset.erase c a
  | false, c, a => Finset.erase c a

/-- Take the `n`-th smallest element away, if there is one. -/
def removeNth (c : Contents α b) (n : Nat) : Contents α b :=
  match c.sorted[n]? with
  | none => c
  | some a => c.remove a

end Contents

/-- The run on collections. -/
def specStep (t : (x : Name) → Contents α x.1) : Op α → (x : Name) → Contents α x.1
  | .construct x invec => Function.update t x (.ofList x.1 invec)
  | .copy x rhs => Function.update t x (t rhs).convert
  | .assign x rhs => Function.update t x (t rhs).convert
  | .add x item => Function.update t x ((t x).insert item)
  | .mergeVector x invec => Function.update t x ((t x).join (.ofList x.1 invec))
  | .merge b i j => Function.update t (b, i) ((t (b, i)).join (t (b, j)))
  | .erase x index => Function.update t x ((t x).removeNth index)
  | .popBack x => Function.update t x ((t x).removeNth ((t x).sorted.length - 1))
  | .clear x => Function.update t x (.ofList x.1 [])

/-! ## Sorted lists -/

/-- In order, and strictly so without duplicates. -/
def InOrder : Bool → List α → Prop
  | true, l => l.Pairwise (· ≤ ·)
  | false, l => l.Pairwise (· < ·)

theorem InOrder.le {b : Bool} {l : List α} (h : InOrder b l) : l.Pairwise (· ≤ ·) := by
  cases b with
  | true => exact h
  | false => exact h.imp le_of_lt

theorem InOrder.sublist {b : Bool} {l l' : List α} (h : InOrder b l) (hs : l'.Sublist l) :
    InOrder b l' := by
  cases b with
  | true => exact List.Pairwise.sublist hs h
  | false => exact List.Pairwise.sublist hs h

theorem uniqueCopy_eq_dedup {l : List α} (h : l.Pairwise (· ≤ ·)) : uniqueCopy l = l.dedup := by
  rw [← h.destutter_eq_dedup, uniqueCopy]
  congr!
  simp

theorem inOrder_dedup {l : List α} (h : l.Pairwise (· ≤ ·)) : InOrder false l.dedup := by
  have hsorted := h.sublist (List.dedup_sublist l)
  exact (hsorted.and (List.nodup_dedup l)).imp fun h => lt_of_le_of_ne h.1 h.2

/-- The two ways an operation ends: the list itself, or each element once. -/
def finish (b : Bool) (l : List α) : List α := if b then l else uniqueCopy l

theorem inOrder_finish (b : Bool) {l : List α} (h : l.Pairwise (· ≤ ·)) :
    InOrder b (finish b l) := by
  cases b with
  | true => exact h
  | false =>
      rw [finish, if_neg (by simp), uniqueCopy_eq_dedup h]
      exact inOrder_dedup h

theorem ofList_finish (b : Bool) {l : List α} (h : l.Pairwise (· ≤ ·)) :
    Contents.ofList b (finish b l) = .ofList b l := by
  cases b with
  | true => rfl
  | false =>
      rw [finish, if_neg (by simp), uniqueCopy_eq_dedup h]
      exact Finset.ext fun a => by simp [Contents.ofList]

/-! ## Representation -/

/-- The vector holds the collection, in order. -/
structure Represents {b : Bool} (v : SortedVector α b) (c : Contents α b) : Prop where
  inOrder : InOrder b v.vec
  contents : Contents.ofList b v.vec = c

variable {b b' : Bool} {v w : SortedVector α b} {c d : Contents α b}

/-- The vector is the collection in ascending order. -/
theorem Represents.sorted_eq (h : Represents v c) : c.sorted = v.vec := by
  rw [← h.contents]
  have hle := h.inOrder.le
  cases b with
  | true =>
      have hsort : (Multiset.sort (v.vec : Multiset α)).Perm v.vec :=
        Multiset.coe_eq_coe.1 (Multiset.sort_eq _ _)
      exact List.Perm.eq_of_pairwise' (Multiset.pairwise_sort (v.vec : Multiset α) (· ≤ ·)) hle hsort
  | false =>
      have hnodup : v.vec.Nodup := h.inOrder.imp ne_of_lt
      exact (List.toFinset_sort _ hnodup).2 hle

theorem empty_represents : Represents (SortedVector.empty : SortedVector α b) (.ofList b []) := by
  refine ⟨?_, rfl⟩
  cases b with
  | true => exact List.Pairwise.nil
  | false => exact List.Pairwise.nil

/-- A list in order represents what is in it. -/
theorem represents_finish {l : List α} (h : l.Pairwise (· ≤ ·)) :
    Represents (⟨finish b l⟩ : SortedVector α b) (.ofList b l) :=
  ⟨inOrder_finish b h, ofList_finish b h⟩

theorem sorting_le (std : Sorting α) (l : List α) : (std.sort l).Pairwise (· ≤ ·) :=
  inSequence_iff.1 (std.sorted l)

theorem ofList_perm {l l' : List α} (h : l.Perm l') : Contents.ofList b l = .ofList b l' := by
  cases b with
  | true => exact Multiset.coe_eq_coe.2 h
  | false => exact List.toFinset_eq_of_perm _ _ h

theorem ofVector_represents (std : Sorting α) (invec : List α) :
    Represents (.ofVector std invec : SortedVector α b) (.ofList b invec) := by
  rw [SortedVector.ofVector]
  by_cases hempty : invec.isEmpty = true
  · rw [if_pos hempty, List.isEmpty_iff.1 hempty]
    exact empty_represents
  · rw [if_neg hempty, ← ofList_perm (std.perm invec)]
    have hfinish := represents_finish (b := b) (sorting_le std invec)
    cases b with
    | true => exact hfinish
    | false => exact hfinish

theorem convert_ofList (l : List α) (hl : InOrder b' l) :
    (Contents.ofList b' l).convert = Contents.ofList b l := by
  cases b with
  | true =>
      cases b' with
      | true => rfl
      | false =>
          have hnodup : l.Nodup := hl.imp ne_of_lt
          show l.toFinset.val = (l : Multiset α)
          rw [List.toFinset_val, hnodup.dedup]
  | false =>
      cases b' with
      | true => rfl
      | false => rfl

theorem copyOf_represents {v : SortedVector α b'} {c : Contents α b'} (h : Represents v c) :
    Represents (.copyOf v : SortedVector α b) c.convert := by
  rw [← h.contents, convert_ofList v.vec h.inOrder]
  have hle := h.inOrder.le
  cases b' with
  | true =>
      have hfinish := represents_finish (b := b) hle
      cases b with
      | true => exact hfinish
      | false => exact hfinish
  | false =>
      refine ⟨?_, rfl⟩
      cases b with
      | true => exact hle
      | false => exact h.inOrder

/-! ## Searching -/

theorem lowerBound_eq (h : Represents v c) (item : α) :
    lowerBound v.vec item = v.vec.countP fun x => x < item :=
  partitionPoint_eq (partitioned_lt (inSequence_iff.2 h.inOrder.le) item)

theorem not_gt_eq_le (item : α) :
    (fun x => !decide (item < x)) = fun x => decide (x ≤ item) := by
  funext x
  rw [← decide_not, decide_eq_decide, not_lt]

/-- What is not above the item comes first. -/
theorem partitioned_le {l : List α} (hl : l.Pairwise (· ≤ ·)) (item : α) :
    Partitioned (fun x => x ≤ item) l := by
  rw [← not_gt_eq_le]
  exact partitioned_not_gt (inSequence_iff.2 hl) item

theorem upperBound_eq (h : Represents v c) (item : α) :
    upperBound v.vec item = v.vec.countP fun x => x ≤ item := by
  rw [upperBound, not_gt_eq_le]
  exact partitionPoint_eq (partitioned_le h.inOrder.le item)

/-- The boundary of what is below the item is where the item stands first. -/
theorem idxOf_eq_countP {l : List α} (hl : l.Pairwise (· ≤ ·)) {item : α} (hmem : item ∈ l) :
    l.idxOf item = l.countP fun x => x < item := by
  induction l with
  | nil => simp at hmem
  | cons a l ih =>
      obtain ⟨hfirst, hrest⟩ := List.pairwise_cons.1 hl
      by_cases ha : a = item
      · subst ha
        rw [List.idxOf_cons_self, eq_comm, List.countP_eq_zero]
        intro x hx
        rw [decide_eq_true_eq, not_lt]
        rcases List.mem_cons.1 hx with rfl | hx
        · exact le_rfl
        · exact hfirst x hx
      · have hmem' : item ∈ l := (List.mem_cons.1 hmem).resolve_left (Ne.symm ha)
        have hlt : a < item := lt_of_le_of_ne (hfirst item hmem') ha
        rw [List.idxOf_cons_ne _ ha, ih hrest hmem', List.countP_cons_of_pos (by simpa using hlt)]

theorem indexOf_eq (h : Represents v c) (item : α) :
    v.indexOf item = if item ∈ v.vec then (v.vec.idxOf item : Int) else notFound := by
  rw [SortedVector.indexOf]
  by_cases hempty : v.vec.isEmpty = true
  · rw [if_pos hempty, List.isEmpty_iff.1 hempty, if_neg (by simp)]
  · rw [if_neg hempty]
    dsimp only
    rw [lowerBound_eq h item]
    by_cases hmem : item ∈ v.vec
    · rw [if_pos hmem, ← idxOf_eq_countP h.inOrder.le hmem,
        List.getElem?_idxOf hmem]
      simp
    · rw [if_neg hmem]
      cases hx : v.vec[v.vec.countP fun x => x < item]? with
      | none => rfl
      | some x =>
          have hne : ¬ (x == item) = true := by
            rw [beq_iff_eq]
            rintro rfl
            exact hmem (List.mem_of_getElem? hx)
          simp [hne]

theorem orderOf_eq (h : Represents v c) (item : α) :
    v.orderOf item = v.vec.countP fun x => x ≤ item := upperBound_eq h item

/-! ## Changing -/

/-- The vector after an item has been put in. -/
theorem insert_represents (h : Represents v c) {item : α} (hnew : b = false → item ∉ v.vec) :
    Represents (⟨v.vec.insertIdx (upperBound v.vec item) item⟩ : SortedVector α b)
      (c.insert item) := by
  have hle := h.inOrder.le
  have hcount : (v.vec.countP fun x => x ≤ item) ≤ v.vec.length := List.countP_le_length
  have hperm := List.perm_insertIdx item v.vec hcount
  rw [upperBound_eq h item]
  have hbelow : ∀ x ∈ v.vec, decide (x ≤ item) = true → x ≤ item := fun x _ hx => by simpa using hx
  have habove : ∀ x ∈ v.vec, ¬ decide (x ≤ item) = true → item < x := fun x _ hx => by simpa using hx
  refine ⟨?_, ?_⟩
  · have hpart := partitioned_le hle item
    cases b with
    | true => exact hpart.insertIdx_pairwise h.inOrder hbelow fun x hx hxi => (habove x hx hxi).le
    | false =>
        refine hpart.insertIdx_pairwise h.inOrder (fun x hx hxi => ?_) habove
        exact lt_of_le_of_ne (hbelow x hx hxi) fun heq => hnew rfl (heq ▸ hx)
  · rw [ofList_perm hperm, ← h.contents]
    cases b with
    | true => rfl
    | false => exact List.toFinset_cons

theorem insert_of_mem {item : α} (h : Represents v c) (hb : b = false) (hmem : item ∈ v.vec) :
    c.insert item = c := by
  subst hb
  rw [← h.contents]
  exact Finset.insert_eq_of_mem (List.mem_toFinset.2 hmem)

theorem indexOf_ne_notFound_iff (h : Represents v c) (item : α) :
    v.indexOf item ≠ notFound ↔ item ∈ v.vec := by
  rw [indexOf_eq h]
  by_cases hmem : item ∈ v.vec
  · rw [if_pos hmem]
    refine iff_of_true ?_ hmem
    unfold notFound
    omega
  · rw [if_neg hmem]
    exact iff_of_false (fun h => h rfl) hmem

/-- What `Add` returns and leaves. -/
theorem add_eq (h : Represents v c) (item : α) :
    v.add item = if b = false ∧ item ∈ v.vec then (addFail, v)
      else ((v.vec.countP fun x => x ≤ item : Nat),
        ⟨v.vec.insertIdx (v.vec.countP fun x => x ≤ item) item⟩) := by
  have hcond : (v.indexOf item ≠ notFound ∧ (!b) = true) ↔ b = false ∧ item ∈ v.vec := by
    rw [indexOf_ne_notFound_iff h, Bool.not_eq_true', and_comm]
  rw [SortedVector.add]
  dsimp only
  rw [upperBound_eq h]
  exact if_congr hcond rfl rfl

theorem add_represents (h : Represents v c) (item : α) :
    Represents (v.add item).2 (c.insert item) := by
  rw [add_eq h]
  by_cases hdup : b = false ∧ item ∈ v.vec
  · rw [if_pos hdup, insert_of_mem h hdup.1 hdup.2]
    exact h
  · rw [if_neg hdup]
    have hnew : b = false → item ∉ v.vec := fun hb hmem => hdup ⟨hb, hmem⟩
    have hins := insert_represents h hnew
    rw [upperBound_eq h] at hins
    exact hins

theorem merge_represents (h : Represents v c) (h' : Represents w d) :
    Represents (v.merge w).2 (c.join d) := by
  have hsorted : (stdMerge v.vec w.vec).Pairwise (· ≤ ·) := inSequence_iff.1
    (inSequence_stdMerge (inSequence_iff.2 h.inOrder.le) (inSequence_iff.2 h'.inOrder.le))
  have hperm : (stdMerge v.vec w.vec).Perm (v.vec ++ w.vec) := List.merge_perm_append _
  have hjoin : c.join d = .ofList b (stdMerge v.vec w.vec) := by
    rw [ofList_perm hperm, ← h.contents, ← h'.contents]
    cases b with
    | true => rfl
    | false => exact List.toFinset_append.symm
  have hfinish := represents_finish (b := b) hsorted
  rw [hjoin]
  cases b with
  | true => exact hfinish
  | false => exact hfinish

theorem mergeVector_represents (std : Sorting α) (h : Represents v c) (invec : List α) :
    Represents (v.mergeVector std invec).2 (c.join (.ofList b invec)) :=
  merge_represents h (ofVector_represents std invec)

/-- Taking the element at a position out of the vector. -/
theorem eraseIdx_represents (h : Represents v c) (n : Nat) :
    Represents (⟨v.vec.eraseIdx n⟩ : SortedVector α b) (c.removeNth n) := by
  refine ⟨h.inOrder.sublist (List.eraseIdx_sublist _ _), ?_⟩
  rw [Contents.removeNth, h.sorted_eq]
  by_cases hn : n < v.vec.length
  · rw [List.getElem?_eq_getElem hn]
    dsimp only
    have hperm : v.vec.Perm (v.vec[n] :: v.vec.eraseIdx n) := (List.getElem_cons_eraseIdx_perm hn).symm
    have hcons := ofList_perm (b := b) hperm
    rw [← h.contents, hcons]
    cases b with
    | true => exact (Multiset.erase_cons_head _ _).symm
    | false =>
        have hnodup : (v.vec[n] :: v.vec.eraseIdx n).Nodup :=
          hperm.nodup_iff.1 (h.inOrder.imp ne_of_lt)
        have hnot : v.vec[n] ∉ (v.vec.eraseIdx n).toFinset := by
          rw [List.mem_toFinset]
          exact (List.nodup_cons.1 hnodup).1
        show (v.vec.eraseIdx n).toFinset = ((v.vec[n] :: v.vec.eraseIdx n).toFinset).erase v.vec[n]
        rw [List.toFinset_cons, Finset.erase_insert hnot]
  · rw [List.getElem?_eq_none (by omega), List.eraseIdx_of_length_le (by omega)]
    exact h.contents

theorem erase_represents (h : Represents v c) (index : Nat) :
    Represents (v.erase index).2 (c.removeNth index) := by
  have herase := eraseIdx_represents h index
  rw [SortedVector.erase]
  by_cases hn : index ≥ v.size
  · rw [if_pos hn]
    rw [List.eraseIdx_of_length_le hn] at herase
    exact herase
  · rw [if_neg hn]
    exact herase

theorem popBack_represents (h : Represents v c) :
    Represents v.popBack (c.removeNth (c.sorted.length - 1)) := by
  have herase := eraseIdx_represents h (c.sorted.length - 1)
  rw [h.sorted_eq, List.eraseIdx_length_sub_one] at herase
  rw [h.sorted_eq]
  exact herase

/-! ## Runs -/

/-- Every vector represents its collection. -/
def Refines (s : Vectors α) (t : (x : Name) → Contents α x.1) : Prop := ∀ x, Represents (s x) (t x)

theorem Refines.update {s : Vectors α} {t : (x : Name) → Contents α x.1} (h : Refines s t) {x : Name}
    {v : SortedVector α x.1} {c : Contents α x.1} (hv : Represents v c) :
    Refines (Function.update s x v) (Function.update t x c) := by
  intro y
  by_cases hy : y = x
  · subst hy
    rw [Function.update_self, Function.update_self]
    exact hv
  · rw [Function.update_of_ne hy, Function.update_of_ne hy]
    exact h y

/-- Assigning a vector to itself changes nothing, on either side. -/
theorem update_convert_self (t : (x : Name) → Contents α x.1) (x : Name) :
    Function.update t x (t x).convert = t := by
  have hself : (t x).convert = t x := by
    obtain ⟨b, i⟩ := x
    cases b with
    | true => rfl
    | false => rfl
  rw [hself, Function.update_eq_self]

/-- **One step**: the vectors follow the collections. -/
theorem step_represents (std : Sorting α) {s : Vectors α} {t : (x : Name) → Contents α x.1}
    (h : Refines s t) (op : Op α) : Refines (step std s op) (specStep t op) := by
  cases op with
  | construct x invec => exact h.update (ofVector_represents std invec)
  | copy x rhs => exact h.update (copyOf_represents (h rhs))
  | assign x rhs =>
      rw [step, specStep]
      by_cases heq : x = rhs
      · rw [if_pos heq, ← heq, update_convert_self]
        exact h
      · rw [if_neg heq]
        exact h.update (copyOf_represents (h rhs))
  | add x item => exact h.update (add_represents (h x) item)
  | mergeVector x invec => exact h.update (mergeVector_represents std (h x) invec)
  | merge b i j => exact h.update (merge_represents (h (b, i)) (h (b, j)))
  | erase x index => exact h.update (erase_represents (h x) index)
  | popBack x => exact h.update (popBack_represents (h x))
  | clear x => exact h.update empty_represents

/-- The collections before anything has been done. -/
def specStart : (x : Name) → Contents α x.1 := fun x => .ofList x.1 []

/-- **A whole run.** -/
theorem run_represents (std : Sorting α) (ops : List (Op α)) :
    Refines (run std start ops) (ops.foldl specStep specStart) := by
  have hrun : ∀ {s : Vectors α} {t : (x : Name) → Contents α x.1}, Refines s t →
      Refines (run std s ops) (ops.foldl specStep t) := by
    induction ops with
    | nil => exact fun h => h
    | cons op ops ih => exact fun h => ih (step_represents std h op)
  exact hrun fun _ => empty_represents

/-- The lookups and `Add`, on a vector in order. -/
structure LooksUp {b : Bool} (v : SortedVector α b) (item : α) : Prop where
  found : item ∈ v.vec → v.indexOf item = v.vec.idxOf item
  absent : item ∉ v.vec → v.indexOf item = notFound
  order : v.orderOf item = v.vec.countP fun x => x ≤ item
  refused : b = false → item ∈ v.vec → v.add item = (addFail, v)
  /-- The item stands where `Add` says, between what was there before. -/
  added : ¬ (b = false ∧ item ∈ v.vec) → ∃ i : Nat, (v.add item).1 = i ∧
    (v.add item).2.vec[i]? = some item ∧ (v.add item).2.vec.eraseIdx i = v.vec

theorem Represents.looksUp (h : Represents v c) (item : α) : LooksUp v item := by
  refine ⟨fun hmem => ?_, fun hmem => ?_, orderOf_eq h item, fun hb hmem => ?_, fun hnew => ?_⟩
  · rw [indexOf_eq h, if_pos hmem]
  · rw [indexOf_eq h, if_neg hmem]
  · rw [add_eq h, if_pos ⟨hb, hmem⟩]
  · rw [add_eq h, if_neg hnew]
    refine ⟨_, rfl, ?_, List.eraseIdx_insertIdx_self _⟩
    rw [List.getElem?_insertIdx_self, if_pos List.countP_le_length]

/-- **A sorted vector refines a sorted multiset or set.** After any run on any number of vectors,
each vector holds the collection that the run on collections gives, in order and strictly so where
duplicates are forbidden, and the lookups and `Add` answer as they should. -/
theorem sortedVector_refines (std : Sorting α) (ops : List (Op α)) (x : Name) :
    let v := run std start ops x
    InOrder x.1 v.vec ∧ Contents.ofList x.1 v.vec = ops.foldl specStep specStart x ∧
      ∀ item, LooksUp v item := by
  have h := run_represents std ops x
  exact ⟨h.inOrder, h.contents, h.looksUp⟩

end CUtils.SortedVectors
