import Mathlib.Data.List.Basic

/-!
# Taking and giving back

A log of what was taken and what was given back, newest entry first. `held` is what is still held
after it, and it is `none` if something was given back that was not held at that moment, so a log
with a result matches every entry of giving back with exactly one earlier entry of taking.
-/

namespace CUtils.Resource

variable {ρ : Type}

inductive Deal (ρ : Type)
  | take (r : ρ)
  | give (r : ρ)
  deriving DecidableEq, Repr

variable [DecidableEq ρ]

def held : List (Deal ρ) → Option (List ρ)
  | [] => some []
  | .take r :: log => (held log).map (r :: ·)
  | .give r :: log => (held log).bind fun rs => if r ∈ rs then some (rs.erase r) else none

/-- Everything that was taken has been given back, once. -/
def Settled (log : List (Deal ρ)) : Prop := held log = some []

instance (log : List (Deal ρ)) : Decidable (Settled log) := inferInstanceAs (Decidable (_ = _))

theorem held_take {log : List (Deal ρ)} {rs : List ρ} (h : held log = some rs) (r : ρ) :
    held (.take r :: log) = some (r :: rs) := by
  rw [held, h, Option.map_some]

theorem held_give {log : List (Deal ρ)} {r : ρ} {rs : List ρ} (h : held log = some (r :: rs)) :
    held (.give r :: log) = some rs := by
  rw [held, h, Option.bind_some, if_pos (List.mem_cons_self ..), List.erase_cons_head]

theorem held_give_mem {log : List (Deal ρ)} {r : ρ} {rs : List ρ} (h : held log = some rs)
    (hr : r ∈ rs) : held (.give r :: log) = some (rs.erase r) := by
  rw [held, h, Option.bind_some, if_pos hr]

/-- What was taken before the last one goes back. If the two are equal, it makes no difference
which of them does. -/
theorem held_give_second {log : List (Deal ρ)} {r r' : ρ} {rs : List ρ}
    (h : held log = some (r' :: r :: rs)) : held (.give r :: log) = some (r' :: rs) := by
  rw [held, h, Option.bind_some, if_pos (by simp)]
  by_cases heq : r' = r
  · rw [heq, List.erase_cons_head]
  · rw [List.erase_cons_tail (by simpa using heq), List.erase_cons_head]

end CUtils.Resource
