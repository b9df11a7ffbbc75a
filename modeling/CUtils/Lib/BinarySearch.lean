import Mathlib.Data.List.Count
import Mathlib.Data.List.InsertIdx

/-!
# Binary search

The search behind `std::lower_bound` and `std::upper_bound`: in a list whose elements with a
property come before those without it, find how many have it. The range is given by its start and
its length, and each round halves the length.
-/

namespace CUtils.BinarySearch

variable {α : Type} {p : α → Bool} {l : List α}

/-- The loop; `fuel` bounds the number of rounds. -/
def searchLoop (p : α → Bool) (l : List α) : Nat → Nat → Nat → Nat
  | 0, first, _ => first
  | fuel + 1, first, len =>
      if len = 0 then first
      else
        let half := len / 2
        if l[first + half]?.any p then searchLoop p l fuel (first + half + 1) (len - half - 1)
        else searchLoop p l fuel first half

/-- The number of elements at the front that have the property. -/
def partitionPoint (p : α → Bool) (l : List α) : Nat := searchLoop p l l.length 0 l.length

/-- What has the property comes first. -/
def Partitioned (p : α → Bool) (l : List α) : Prop := l.Pairwise fun a b => p b = true → p a = true

/-- In a partitioned list the position decides whether an element has the property. -/
theorem Partitioned.getElem?_iff (h : Partitioned p l) {i : Nat} {x : α} (hx : l[i]? = some x) :
    p x = true ↔ i < l.countP p := by
  induction l generalizing i with
  | nil => simp at hx
  | cons a l ih =>
      obtain ⟨hfirst, hrest⟩ := List.pairwise_cons.1 h
      by_cases ha : p a = true
      · rw [List.countP_cons_of_pos ha]
        cases i with
        | zero =>
            rw [List.getElem?_cons_zero, Option.some.injEq] at hx
            subst hx
            simp [ha]
        | succ i =>
            rw [List.getElem?_cons_succ] at hx
            rw [ih hrest hx]
            omega
      · -- the first element does not have the property, so none has
        have hnone : ∀ b ∈ a :: l, ¬ p b = true := by
          intro b hb
          rcases List.mem_cons.1 hb with rfl | hb
          · exact ha
          · exact fun hpb => ha (hfirst b hb hpb)
        rw [List.countP_eq_zero.2 hnone]
        simp [hnone x (List.mem_of_getElem? hx)]

/-- The loop keeps the boundary inside the range. -/
theorem searchLoop_eq (h : Partitioned p l) {fuel first len : Nat} (hfuel : len ≤ fuel)
    (hfirst : first ≤ l.countP p) (hlast : l.countP p ≤ first + len)
    (hlen : first + len ≤ l.length) : searchLoop p l fuel first len = l.countP p := by
  induction fuel generalizing first len with
  | zero =>
      rw [searchLoop]
      omega
  | succ fuel ih =>
      rw [searchLoop]
      by_cases h0 : len = 0
      · rw [if_pos h0]
        omega
      · rw [if_neg h0]
        dsimp only
        have hhalf : len / 2 < len := Nat.div_lt_self (Nat.pos_of_ne_zero h0) (by decide)
        obtain ⟨x, hx⟩ : ∃ x, l[first + len / 2]? = some x :=
          ⟨_, List.getElem?_eq_getElem (by omega)⟩
        have hiff := h.getElem?_iff hx
        rw [hx, Option.any_some]
        by_cases hp : p x = true
        · have hmid := hiff.1 hp
          rw [if_pos hp]
          exact ih (by omega) (by omega) (by omega) (by omega)
        · have hmid := mt hiff.2 hp
          rw [if_neg hp]
          exact ih (by omega) (by omega) (by omega) (by omega)

/-- **Binary search** finds the boundary of a partitioned list. -/
theorem partitionPoint_eq (h : Partitioned p l) : partitionPoint p l = l.countP p :=
  searchLoop_eq h (Nat.le_refl _) (Nat.zero_le _)
    (by rw [Nat.zero_add]; exact List.countP_le_length) (Nat.le_of_eq (Nat.zero_add _))

/-- An element put at the boundary stands in order, if it is in order with both sides. -/
theorem Partitioned.insertIdx_pairwise {R : α → α → Prop} (h : Partitioned p l) (hl : l.Pairwise R)
    {item : α} (hbefore : ∀ x ∈ l, p x = true → R x item)
    (hbehind : ∀ x ∈ l, ¬ p x = true → R item x) :
    (l.insertIdx (l.countP p) item).Pairwise R := by
  induction l with
  | nil => simp
  | cons a l ih =>
      obtain ⟨hfirst, hrest⟩ := List.pairwise_cons.1 hl
      obtain ⟨hfirst', hrest'⟩ := List.pairwise_cons.1 h
      by_cases ha : p a = true
      · rw [List.countP_cons_of_pos ha, List.insertIdx_succ_cons, List.pairwise_cons]
        refine ⟨fun x hx => ?_, ih hrest' hrest (fun x hx => hbefore x (by simp [hx]))
          fun x hx => hbehind x (by simp [hx])⟩
        rcases List.eq_or_mem_of_mem_insertIdx hx with rfl | hx
        · exact hbefore a (by simp) ha
        · exact hfirst x hx
      · -- nothing has the property
        have hall : ∀ x ∈ a :: l, ¬ p x = true := by
          intro x hx
          rcases List.mem_cons.1 hx with rfl | hx
          · exact ha
          · exact fun hpx => ha (hfirst' x hx hpx)
        rw [List.countP_eq_zero.2 hall, List.insertIdx_zero, List.pairwise_cons]
        exact ⟨fun x hx => hbehind x hx (hall x hx), hl⟩

end CUtils.BinarySearch
