import Mathlib.Data.List.Basic
import Mathlib.Algebra.GroupWithZero.Nat

/-!
# A stack of calls

A machine works off a stack of calls; the calls that one of them makes are worked off before the
rest. A size of the state and a weight of the calls show that it comes to an end.

The rules speak of runs that end in `Q`, where a state before `Q` is `Q` as well: an invariant has
to be kept only by such steps.
-/

namespace CUtils.CallStack

structure Machine (σ τ : Type) where
  step : σ → τ → σ × List τ
  size : σ → Nat
  weight : τ → Nat
  decreases : ∀ s t, size (step s t).1 + ((step s t).2.map weight).sum < size s + weight t

namespace Machine

variable {σ τ : Type} (m : Machine σ τ)

def run (s : σ) : List τ → σ
  | [] => s
  | t :: ts => run (m.step s t).1 ((m.step s t).2 ++ ts)
termination_by ts => m.size s + (ts.map m.weight).sum
decreasing_by
  have := m.decreases s t
  simp only [List.map_append, List.sum_append, List.map_cons, List.sum_cons]
  omega

@[simp] theorem run_nil (s : σ) : m.run s [] = s := by
  rw [run]

theorem run_cons (s : σ) (t : τ) (ts : List τ) :
    m.run s (t :: ts) = m.run (m.step s t).1 ((m.step s t).2 ++ ts) := by
  rw [run]

variable {m} {Q : σ → Prop} {I : σ → List τ → Prop}

theorem of_run (hQ : ∀ s t, Q (m.step s t).1 → Q s) {s : σ} {ts : List τ} (h : Q (m.run s ts)) :
    Q s := by
  induction s, ts using run.induct m with
  | case1 s => simpa using h
  | case2 s t ts ih =>
      rw [run_cons] at h
      exact hQ s t (ih h)

theorem run_invariant (hQ : ∀ s t, Q (m.step s t).1 → Q s)
    (hstep : ∀ s t ts, I s (t :: ts) → Q (m.step s t).1 → I (m.step s t).1 ((m.step s t).2 ++ ts))
    {s : σ} {ts : List τ} (hI : I s ts) (h : Q (m.run s ts)) : I (m.run s ts) [] := by
  induction s, ts using run.induct m with
  | case1 s => simpa using hI
  | case2 s t ts ih =>
      rw [run_cons] at h ⊢
      exact ih (hstep s t ts hI (of_run hQ h)) h

/-- What commutes with every step commutes with the run. -/
theorem run_commutes (f : σ → σ) (hQ : ∀ s t, Q (m.step s t).1 → Q s)
    (hstep : ∀ s t ts, I s (t :: ts) → Q (m.step s t).1 → I (m.step s t).1 ((m.step s t).2 ++ ts))
    (hcomm : ∀ s t ts, I s (t :: ts) → Q (m.step s t).1 →
      m.step (f s) t = (f (m.step s t).1, (m.step s t).2))
    {s : σ} {ts : List τ} (hI : I s ts) (h : Q (m.run s ts)) : m.run (f s) ts = f (m.run s ts) := by
  induction s, ts using run.induct m with
  | case1 s => simp
  | case2 s t ts ih =>
      rw [run_cons] at h
      have hq := of_run hQ h
      rw [run_cons, run_cons, hcomm s t ts hI hq]
      exact ih (hstep s t ts hI hq) h

end Machine

end CUtils.CallStack
