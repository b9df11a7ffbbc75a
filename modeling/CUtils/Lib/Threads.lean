import Mathlib.Algebra.Order.BigOperators.Group.Finset
import Mathlib.Data.Fintype.Basic
import Mathlib.Logic.Function.Basic

/-!
# Threads, a mutex, counters

Threads are a function from their names to the places they are at. What they have together is a
sum over them; when one of them goes on, `sum_update` says what becomes of it. `Guarded` is what a
mutex is for: the threads at places inside it are none or the one that owns it.

Counters are `int`s that wrap around (`int`).
-/

namespace Threads

open Finset

variable {ι π : Type} [DecidableEq ι] {t u : ι} {x : π} {threads : ι → π}

/-- What holds of the thread that goes on and of the others holds of all. -/
theorem forall_update {P : ι → π → Prop} (ht : P t x) (hrest : ∀ u, u ≠ t → P u (threads u)) (u : ι) :
    P u (Function.update threads t x u) := by
  by_cases hu : u = t
  · rw [hu, Function.update_self]
    exact ht
  · rw [Function.update_of_ne hu]
    exact hrest u hu

theorem forall_update_two {P : ι → π → Prop} {y : π} (hne : u ≠ t) (ht : P t x) (hu : P u y)
    (hrest : ∀ v, v ≠ t → v ≠ u → P v (threads v)) (v : ι) :
    P v (Function.update (Function.update threads u y) t x v) := by
  rw [Function.update_comm hne]
  refine forall_update (P := P) hu (fun v hv => ?_) v
  exact forall_update (P := fun v y => v ≠ u → P v y) (fun _ => ht) (fun v hvt hvu => hrest v hvt hvu) v hv

/-! ## What the threads have together -/

section Sums

variable [Fintype ι]

/-- One thread goes on to `x`. -/
theorem sum_update (f : π → Nat) (threads : ι → π) (t : ι) (x : π) :
    ∑ u, f (Function.update threads t x u) + f (threads t) = ∑ u, f (threads u) + f x := by
  have hrest : ∑ u ∈ univ.erase t, f (Function.update threads t x u) =
      ∑ u ∈ univ.erase t, f (threads u) := by
    refine sum_congr rfl fun u hu => ?_
    rw [Function.update_of_ne (ne_of_mem_erase hu)]
  rw [← add_sum_erase univ _ (mem_univ t), ← add_sum_erase univ (fun u => f (threads u))
    (mem_univ t), hrest, Function.update_self]
  omega

/-- Two threads go on, as when one wakes up the other. -/
theorem sum_update_two (f : π → Nat) (threads : ι → π) (hne : t ≠ u) (x y : π) :
    ∑ v, f (Function.update (Function.update threads u y) t x v) + (f (threads t) + f (threads u)) =
      ∑ v, f (threads v) + (f x + f y) := by
  have hfirst := sum_update f threads u y
  have hsecond := sum_update f (Function.update threads u y) t x
  rw [Function.update_of_ne hne] at hsecond
  omega

omit [DecidableEq ι] in
theorem le_sum (f : π → Nat) (threads : ι → π) (t : ι) : f (threads t) ≤ ∑ u, f (threads u) :=
  single_le_sum (f := fun u => f (threads u)) (fun _ _ => Nat.zero_le _) (mem_univ t)

end Sums

/-! ## A mutex -/

/-- Exactly the thread that owns the mutex is inside. -/
def Guarded (inside : π → Bool) (owner : Option ι) (threads : ι → π) : Prop :=
  ∀ t, inside (threads t) = true ↔ owner = some t

namespace Guarded

variable {inside : π → Bool} {owner : Option ι}

omit [DecidableEq ι] in
theorem outside (h : Guarded inside owner threads) (hfree : owner = none) (t : ι) :
    inside (threads t) = false := by
  rw [← Bool.not_eq_true, h t, hfree]
  exact nofun

omit [DecidableEq ι] in
theorem unique (h : Guarded inside owner threads) (ht : inside (threads t) = true)
    (hu : inside (threads u) = true) : u = t :=
  Option.some.inj (((h u).1 hu).symm.trans ((h t).1 ht))

/-- A thread takes the mutex. -/
theorem enter (h : Guarded inside owner threads) (hfree : owner = none) (hx : inside x = true) :
    Guarded inside (some t) (Function.update threads t x) := by
  intro u
  by_cases hu : u = t
  · rw [hu, Function.update_self, hx]
    exact iff_of_true rfl rfl
  · rw [Function.update_of_ne hu, h.outside hfree]
    exact iff_of_false nofun fun heq => hu (Option.some.inj heq).symm

/-- The owner leaves. -/
theorem leave (h : Guarded inside owner threads) (ht : inside (threads t) = true)
    (hx : inside x = false) : Guarded inside none (Function.update threads t x) := by
  intro u
  by_cases hu : u = t
  · rw [hu, Function.update_self, hx]
    exact iff_of_false nofun nofun
  · rw [Function.update_of_ne hu]
    exact iff_of_false (fun hin => hu (h.unique ht hin)) nofun

/-- A thread stays where it was: inside or outside. -/
theorem stay (h : Guarded inside owner threads) (hx : inside x = inside (threads t)) :
    Guarded inside owner (Function.update threads t x) := by
  intro u
  by_cases hu : u = t
  · rw [hu, Function.update_self, hx]
    exact h t
  · rw [Function.update_of_ne hu]
    exact h u

/-- The owner hands on the mutex. -/
theorem hand {y : π} (h : Guarded inside owner threads) (hne : u ≠ t)
    (ht : inside (threads t) = true) (hx : inside x = false) (hy : inside y = true) :
    Guarded inside (some u) (Function.update (Function.update threads u y) t x) := by
  rw [Function.update_comm hne]
  exact (h.leave ht hx).enter rfl hy

end Guarded

/-! ## Counters -/

/-- The value of an `int` that has been added to or subtracted from. -/
def int (n : Int) : Int := n.bmod (2 ^ 32)

theorem int_eq {n : Int} (hlo : -2 ^ 31 ≤ n) (hhi : n < 2 ^ 31) : int n = n := by
  unfold int
  rw [Int.bmod_eq_of_le (by omega) (by omega)]

end Threads
