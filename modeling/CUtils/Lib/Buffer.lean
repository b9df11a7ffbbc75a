import Mathlib.Data.List.Basic

/-!
# Buffers of fixed size

A buffer is the list of its elements. A store outside of it has no result, so a program that has one
has kept to the buffer. `filled block pos xs` is the buffer with `xs` from position `pos` on: what
has been written is a stretch, and a store right in front of it or right behind it makes it longer.
-/

namespace Buffer

variable {α : Type}

def store (block : List α) (i : Nat) (x : α) : Option (List α) :=
  if i < block.length then some (block.set i x) else none

def filled (block : List α) (pos : Nat) (xs : List α) : List α :=
  block.take pos ++ xs ++ block.drop (pos + xs.length)

@[simp] theorem filled_nil (block : List α) (pos : Nat) : filled block pos [] = block := by
  simp [filled]

theorem length_filled {block xs : List α} {pos : Nat} (h : pos + xs.length ≤ block.length) :
    (filled block pos xs).length = block.length := by
  simp only [filled, List.length_append, List.length_take, List.length_drop]
  omega

/-- Two stretches, one behind the other. -/
theorem filled_filled {block xs ys : List α} {pos : Nat}
    (h : pos + xs.length + ys.length ≤ block.length) :
    filled (filled block pos xs) (pos + xs.length) ys = filled block pos (xs ++ ys) := by
  have hlen : (block.take pos ++ xs).length = pos + xs.length := by
    simp only [List.length_append, List.length_take]
    omega
  have htake : (filled block pos xs).take (pos + xs.length) = block.take pos ++ xs := by
    rw [filled, ← hlen, List.take_left]
  have hdrop : (filled block pos xs).drop (pos + xs.length + ys.length) =
      block.drop (pos + (xs ++ ys).length) := by
    rw [filled, ← List.drop_drop, ← hlen, List.drop_left, List.drop_drop, hlen, List.length_append,
      Nat.add_assoc]
  rw [filled, htake, hdrop, filled, List.append_assoc (block.take pos)]

theorem store_eq_filled {block : List α} {pos : Nat} (h : pos < block.length) (x : α) :
    store block pos x = some (filled block pos [x]) := by
  rw [store, if_pos h, filled, List.set_eq_take_append_cons_drop, if_pos h]
  simp

/-- A store right behind the stretch. -/
theorem store_behind {block xs : List α} {pos : Nat} (h : pos + xs.length < block.length) (x : α) :
    store (filled block pos xs) (pos + xs.length) x = some (filled block pos (xs ++ [x])) := by
  rw [store_eq_filled (by rw [length_filled (by omega)]; exact h), filled_filled]
  simp only [List.length_singleton]
  omega

/-- A store right in front of it. -/
theorem store_front {block xs : List α} {pos : Nat} (h : pos + 1 + xs.length ≤ block.length)
    (x : α) : store (filled block (pos + 1) xs) pos x = some (filled block pos (x :: xs)) := by
  have htake : (filled block (pos + 1) xs).take pos = block.take pos := by
    rw [filled, List.append_assoc, List.take_append_of_le_length (by simp; omega), List.take_take,
      Nat.min_eq_left (by omega)]
  have hdrop : (filled block (pos + 1) xs).drop (pos + 1) =
      xs ++ block.drop (pos + 1 + xs.length) := by
    have hfront : (block.take (pos + 1)).length = pos + 1 := by
      rw [List.length_take]
      omega
    rw [filled, List.append_assoc, List.drop_left' hfront]
  rw [store_eq_filled (by rw [length_filled h]; omega), filled, htake, List.length_singleton, hdrop,
    filled, List.length_cons]
  congr 1
  rw [List.append_assoc, List.append_assoc, List.singleton_append, List.cons_append]
  congr 4
  omega

end Buffer
