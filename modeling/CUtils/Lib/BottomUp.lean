import Mathlib.Data.List.Basic

/-!
# Removing from below

The nodes of a list are removed one after another, each of them only if everything it contains has
been removed before. If the list puts no node before one that it contains, the result does not
depend on the rest of its order: it is given by any solution `S` of the recursion "a node is removed
if nothing keeps it and everything in it is removed".
-/

namespace CUtils.BottomUp

variable {α : Type} [DecidableEq α] (children : α → List α) (free : α → Bool)

def removeAll : List α → List α → List α
  | [], gone => gone
  | q :: queue, gone =>
      removeAll queue (if free q ∧ ∀ c ∈ children q, c ∈ gone then q :: gone else gone)

variable {children free}

theorem mem_removeAll {S : α → Prop} {queue gone : List α} (hnodup : queue.Nodup)
    (horder : queue.Pairwise fun a b => b ∉ children a) (hself : ∀ q ∈ queue, q ∉ children q)
    (hS : ∀ q ∈ queue, S q ↔ free q = true ∧ ∀ c ∈ children q, S c)
    (hother : ∀ q ∈ queue, ∀ c ∈ children q, c ∉ queue → (S c ↔ c ∈ gone))
    (hnew : ∀ q ∈ queue, q ∉ gone) (x : α) :
    x ∈ removeAll children free queue gone ↔ x ∈ gone ∨ (x ∈ queue ∧ S x) := by
  induction queue generalizing gone with
  | nil => simp [removeAll]
  | cons q queue ih =>
      obtain ⟨hq, hnodup⟩ := List.nodup_cons.1 hnodup
      obtain ⟨hafter, horder⟩ := List.pairwise_cons.1 horder
      -- what `q` contains is not in the queue any more
      have hremoved : (∀ c ∈ children q, c ∈ gone) ↔ ∀ c ∈ children q, S c := by
        refine forall₂_congr fun c hc => (hother q (by simp) c hc ?_).symm
        intro hmem
        rcases List.mem_cons.1 hmem with rfl | hmem
        · exact hself c (by simp) hc
        · exact hafter c hmem hc
      have hgone : ∀ c, c ∈ (if free q = true ∧ ∀ c ∈ children q, c ∈ gone then q :: gone else gone) ↔
          c ∈ gone ∨ (c = q ∧ S q) := by
        intro c
        have hcond : (free q = true ∧ ∀ c ∈ children q, c ∈ gone) ↔ S q := by
          rw [hremoved, ← hS q (by simp)]
        by_cases hs : S q
        · rw [if_pos (hcond.2 hs)]
          simp [hs, or_comm]
        · rw [if_neg (fun h => hs (hcond.1 h))]
          simp [hs]
      rw [removeAll, ih hnodup horder (fun q' hq' => hself q' (by simp [hq']))
        (fun q' hq' => hS q' (by simp [hq']))]
      · rw [hgone, List.mem_cons]
        constructor
        · rintro ((h | ⟨rfl, h⟩) | ⟨h, hs⟩)
          · exact Or.inl h
          · exact Or.inr ⟨Or.inl rfl, h⟩
          · exact Or.inr ⟨Or.inr h, hs⟩
        · rintro (h | ⟨rfl | h, hs⟩)
          · exact Or.inl (Or.inl h)
          · exact Or.inl (Or.inr ⟨rfl, hs⟩)
          · exact Or.inr ⟨h, hs⟩
      · intro q' hq' c hc hmem
        rw [hgone]
        by_cases hcq : c = q
        · subst hcq
          simp [hnew c (by simp)]
        · rw [hother q' (by simp [hq']) c hc (by simp [hcq, hmem])]
          simp [hcq]
      · intro q' hq' hmem
        rcases (hgone q').1 hmem with h | ⟨rfl, -⟩
        · exact hnew q' (by simp [hq']) h
        · exact hq hq'

end CUtils.BottomUp
