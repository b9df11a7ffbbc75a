import Mathlib.Algebra.BigOperators.Group.Finset.Basic

/-!
# Adding up, some things once

A list is gone through and the weights of its items are added up. An item may have a key, and of all
items with the same key only the first is added. The weight of an item with a key depends on the key
alone, so it does not matter which of them that is: `foldl_add` has the total as a sum over the items
without a key and a sum over the set of keys.
-/

namespace CountOnce

variable {α κ M : Type} [DecidableEq κ] [AddCommMonoid M]

/-- The total so far, and the keys that have turned up. -/
@[ext]
structure Tally (κ M : Type) where
  total : M
  visited : Finset κ

variable (key : α → Option κ) (weight : α → M)

def Tally.add (s : Tally κ M) (a : α) : Tally κ M :=
  match key a with
  | none => { s with total := s.total + weight a }
  | some k =>
      if k ∈ s.visited then s
      else { total := s.total + weight a, visited := insert k s.visited }

/-- The keys of the items. -/
def keys (l : List α) : Finset κ := (l.filterMap key).toFinset

/-- The items without a key. -/
def unkeyed (l : List α) : List α := l.filter fun a => (key a).isNone

section Cons

variable {key} {weight} {a : α} {k : κ} {s : Tally κ M}

theorem add_unkeyed (h : key a = none) :
    s.add key weight a = { s with total := s.total + weight a } := by
  rw [Tally.add, h]

theorem add_visited (h : key a = some k) (hk : k ∈ s.visited) : s.add key weight a = s := by
  rw [Tally.add, h]
  exact if_pos hk

theorem add_fresh (h : key a = some k) (hk : k ∉ s.visited) :
    s.add key weight a = { total := s.total + weight a, visited := insert k s.visited } := by
  rw [Tally.add, h]
  exact if_neg hk

theorem keys_cons_none (h : key a = none) (l : List α) : keys key (a :: l) = keys key l := by
  rw [keys, List.filterMap_cons_none h, keys]

theorem keys_cons_some (h : key a = some k) (l : List α) :
    keys key (a :: l) = insert k (keys key l) := by
  rw [keys, List.filterMap_cons_some h, List.toFinset_cons, keys]

omit [DecidableEq κ] in
theorem unkeyed_cons_none (h : key a = none) (l : List α) :
    unkeyed key (a :: l) = a :: unkeyed key l := by
  rw [unkeyed, List.filter_cons_of_pos (by rw [h]; rfl), unkeyed]

omit [DecidableEq κ] in
theorem unkeyed_cons_some (h : key a = some k) (l : List α) :
    unkeyed key (a :: l) = unkeyed key l := by
  rw [unkeyed, List.filter_cons_of_neg (by rw [h]; exact Bool.false_ne_true), unkeyed]

end Cons

/-- **What is added up**, by induction on the list: the keys that have turned up before are left
out. -/
theorem foldl_add {w : κ → M} (hw : ∀ a, ∀ k ∈ key a, weight a = w k) (l : List α)
    (s : Tally κ M) :
    l.foldl (Tally.add key weight) s =
      { total := s.total + ((unkeyed key l).map weight).sum + ∑ k ∈ keys key l \ s.visited, w k
        visited := s.visited ∪ keys key l } := by
  induction l generalizing s with
  | nil => ext1 <;> simp [keys, unkeyed]
  | cons a l ih =>
      rw [List.foldl_cons, ih]
      cases h : key a with
      | none =>
          rw [add_unkeyed h, keys_cons_none h, unkeyed_cons_none h, List.map_cons, List.sum_cons,
            add_assoc s.total]
      | some k =>
          rw [keys_cons_some h, unkeyed_cons_some h]
          by_cases hk : k ∈ s.visited
          · rw [add_visited h hk, Finset.insert_sdiff_of_mem _ hk, Finset.union_insert,
              Finset.insert_eq_of_mem (Finset.mem_union_left _ hk)]
          · have hset : insert k (keys key l) \ s.visited =
                insert k (keys key l \ insert k s.visited) := by
              ext x
              rcases eq_or_ne x k with rfl | hne
              · simp [hk]
              · simp [hne]
            have hfresh : k ∉ keys key l \ insert k s.visited := by simp
            rw [add_fresh h hk, hset, Finset.sum_insert hfresh, Finset.insert_union,
              Finset.union_insert, hw a k h]
            ext1
            · simp only [add_assoc, add_left_comm]
            · rfl

omit [AddCommMonoid M] in
theorem mem_keys {l : List α} {k : κ} : k ∈ keys key l ↔ ∃ a ∈ l, key a = some k := by
  rw [keys, List.mem_toFinset, List.mem_filterMap]

omit [DecidableEq κ] in
/-- In a list without repetitions the order does not matter. -/
theorem sum_unkeyed [DecidableEq α] {l : List α} (h : l.Nodup) :
    ((unkeyed key l).map weight).sum = ∑ a ∈ l.toFinset with key a = none, weight a := by
  rw [unkeyed, ← List.sum_toFinset weight (h.filter _), List.toFinset_filter]
  simp only [Option.isNone_iff_eq_none]

end CountOnce
