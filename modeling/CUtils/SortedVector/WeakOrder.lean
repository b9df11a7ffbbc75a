import CUtils.SortedVector.Model
import Mathlib.Order.Defs.Unbundled
import Mathlib.Order.Lattice

/-!
# Vectors in order

What a sorted vector needs of the element type is a strict weak order: elements may be equivalent,
neither below the other, without being equal. A list is `InSequence` if no element is above one
behind it. Binary search then finds the boundaries it looks for, and `merge` keeps the order. For a
linear order this is the ascending order.
-/

namespace CUtils.SortedVectors

open BinarySearch

/-- A strict weak order, and an equality that is finer than its equivalence. -/
class Comparable (α : Type) [LT α] [BEq α] : Prop where
  order : IsStrictWeakOrder α (· < ·)
  equiv : EquivBEq α
  not_lt_of_beq : ∀ {a b : α}, (a == b) = true → ¬ a < b

attribute [instance] Comparable.order Comparable.equiv

section Order

variable {α : Type} [LT α]

/-- Neither is below the other. -/
def Equivalent (a b : α) : Prop := ¬ a < b ∧ ¬ b < a

theorem Equivalent.symm {a b : α} (h : Equivalent a b) : Equivalent b a := ⟨h.2, h.1⟩

variable [BEq α] [Comparable α]

theorem equivalent_of_beq {a b : α} (h : (a == b) = true) : Equivalent a b :=
  ⟨Comparable.not_lt_of_beq h, Comparable.not_lt_of_beq (BEq.symm h)⟩

/-- Being not above is transitive. -/
theorem not_lt_trans {a b c : α} (hab : ¬ b < a) (hbc : ¬ c < b) : ¬ c < a := by
  intro hca
  by_cases hlt : a < b
  · exact hbc (trans_of (· < ·) hca hlt)
  · by_cases hlt' : b < c
    · exact hab (trans_of (· < ·) hlt' hca)
    · exact (IsStrictWeakOrder.incomp_trans a b c ⟨hlt, hab⟩ ⟨hlt', hbc⟩).2 hca

theorem Equivalent.trans {a b c : α} (h : Equivalent a b) (h' : Equivalent b c) : Equivalent a c :=
  ⟨not_lt_trans h'.1 h.1, not_lt_trans h.2 h'.2⟩

theorem Equivalent.lt_iff {a b : α} (h : Equivalent a b) (x : α) : x < a ↔ x < b := by
  constructor
  · intro hx
    by_contra hnot
    exact not_lt_trans h.2 hnot hx
  · intro hx
    by_contra hnot
    exact not_lt_trans h.1 hnot hx

end Order

/-! ## Lists in order -/

variable {α : Type} [LT α]

/-- No element is above one behind it. -/
def InSequence (l : List α) : Prop := l.Pairwise fun a b => ¬ b < a

section Comparable

variable [BEq α] [DecidableLT α] [Comparable α]

theorem partitioned_lt {l : List α} (hl : InSequence l) (item : α) :
    Partitioned (fun x => x < item) l := by
  refine hl.imp fun {a b} hab hb => ?_
  rw [decide_eq_true_eq] at hb ⊢
  by_contra hnot
  exact not_lt_trans hnot hab hb

theorem partitioned_not_gt {l : List α} (hl : InSequence l) (item : α) :
    Partitioned (fun x => !(item < x)) l := by
  refine hl.imp fun {a b} hab hb => ?_
  rw [Bool.not_eq_true', decide_eq_false_iff_not] at hb ⊢
  exact not_lt_trans hab hb

theorem inSequence_stdMerge {xs ys : List α} (hx : InSequence xs) (hy : InSequence ys) :
    InSequence (stdMerge xs ys) := by
  have hbool : ∀ {l : List α}, l.Pairwise (fun x y => (!decide (y < x)) = true) ↔ InSequence l :=
    List.Pairwise.iff fun {x y} => by simp
  refine hbool.1 (List.pairwise_merge (fun x y z hxy hyz => ?_) (fun x y => ?_) xs ys
    (hbool.2 hx) (hbool.2 hy))
  · simp only [Bool.not_eq_true', decide_eq_false_iff_not] at hxy hyz ⊢
    exact not_lt_trans hxy hyz
  · simp only [Bool.or_eq_true, Bool.not_eq_true', decide_eq_false_iff_not]
    exact (em (y < x)).elim (fun h => Or.inr fun h' => irrefl x (trans_of (· < ·) h' h)) Or.inl

end Comparable

/-! ## Linear orders -/

instance comparable_of_linearOrder {α : Type} [LinearOrder α] : Comparable α where
  order := {
    irrefl := lt_irrefl
    trans := fun _ _ _ => lt_trans
    incomp_trans := fun a b c hab hbc => by
      rw [not_lt, not_lt] at hab hbc ⊢
      exact ⟨le_trans hbc.1 hab.1, le_trans hab.2 hbc.2⟩ }
  equiv := inferInstance
  not_lt_of_beq h := by
    obtain rfl := eq_of_beq h
    exact lt_irrefl _

theorem inSequence_iff {α : Type} [LinearOrder α] {l : List α} :
    InSequence l ↔ l.Pairwise (· ≤ ·) := List.Pairwise.iff fun {_ _} => not_lt

end CUtils.SortedVectors
