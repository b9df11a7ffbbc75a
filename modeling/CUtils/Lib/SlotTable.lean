import CUtils.Lib.StateRun
import Mathlib.Data.List.Induction
import Mathlib.Logic.Function.Iterate
import Mathlib.Order.Monotone.Basic
import Mathlib.Order.WellFounded

/-!
# Tables that grow when they are full

A table has a number of slots, and the first few of them are used. Whoever wants to use a slot asks
for room first, and the table grows only if it is full at that moment; between asking and using,
others may ask and use as well. So the slot that was asked for may be gone when it is needed.

**Theorem (`Slots.full_iff`).** Whether the table is full after a list of requests can be told from
the table before them and from how many of them used a slot: it is full if and only if the number
of used slots is one of the sizes that the table grows through, and the last request did not ask
for room.

The proof is an induction over the requests, the last one first. The sizes the table has grown
through are at most the number of used slots, because it was full when it grew; once a slot has been
used since, they are below it.
-/

namespace SlotTable

open StateRun

structure Slots where
  used : Nat
  size : Nat
  deriving DecidableEq, Repr

/-- What the users of a table ask of it. -/
inductive Ask
  /-- Room for one more. -/
  | reserve
  /-- A slot is used, whether it was asked for or not. -/
  | record
  /-- All but the first `k` slots are given back, used or not. -/
  | cut (k : Nat)
  deriving DecidableEq, Repr

/-- What a request makes of the table; `grow` gives the size that follows a size. -/
def Slots.handle (grow : Nat → Nat) (s : Slots) : Ask → Slots
  | .reserve => if s.used < s.size then s else ⟨s.used, grow s.size⟩
  | .record => ⟨s.used + 1, s.size⟩
  | .cut k => ⟨k, k⟩

def Slots.handleAll (grow : Nat → Nat) (s : Slots) (asks : List Ask) : Slots :=
  asks.foldl (Slots.handle grow) s

/-- The slot that is used is there. -/
def Slots.Serves (s : Slots) (a : Ask) : Prop := a = .record → s.used < s.size

/-- Every slot that is used in the run is there. -/
def Slots.ServesAll (grow : Nat → Nat) (s : Slots) (asks : List Ask) : Prop :=
  Along Slots.Serves (Slots.handle grow) s asks

/-- The table as the last cut has left it, or as it was at the start. -/
def Slots.base (s : Slots) (asks : List Ask) : Slots :=
  asks.foldl (fun b a => match a with | .cut k => ⟨k, k⟩ | _ => b) s

/-- How many slots have been used since the last cut. -/
def recorded (asks : List Ask) : Nat :=
  asks.foldl (fun n a => match a with | .reserve => n | .record => n + 1 | .cut _ => 0) 0

/-- The requests fill the table: the number of used slots is one of the sizes the table grows
through, and the last request did not make it grow. -/
def Slots.Fills (grow : Nat → Nat) (s : Slots) (asks : List Ask) : Prop :=
  asks.getLast? ≠ some .reserve ∧
    ∃ i, grow^[i] (s.base asks).size = (s.base asks).used + recorded asks

variable {grow : Nat → Nat}

/-! ## One more request -/

theorem Slots.handleAll_append (s : Slots) (asks : List Ask) (a : Ask) :
    s.handleAll grow (asks ++ [a]) = (s.handleAll grow asks).handle grow a := by
  rw [Slots.handleAll, List.foldl_append]
  rfl

theorem Slots.servesAll_append (s : Slots) (asks asks' : List Ask) :
    s.ServesAll grow (asks ++ asks') ↔
      s.ServesAll grow asks ∧ (s.handleAll grow asks).ServesAll grow asks' :=
  Along.append

theorem Slots.base_append (s : Slots) (asks : List Ask) (a : Ask) :
    s.base (asks ++ [a]) = match a with | .cut k => ⟨k, k⟩ | _ => s.base asks := by
  rw [Slots.base, List.foldl_append]
  rfl

/-- Once room has been asked for, there is a free slot. -/
theorem Slots.reserve_lt (hgrow : ∀ n, n < grow n) {s : Slots} (hs : s.used ≤ s.size) :
    (s.handle grow .reserve).used < (s.handle grow .reserve).size := by
  rw [Slots.handle]
  split
  · assumption
  · exact hs.trans_lt (hgrow s.size)

theorem recorded_append (asks : List Ask) (a : Ask) :
    recorded (asks ++ [a]) =
      match a with | .reserve => recorded asks | .record => recorded asks + 1 | .cut _ => 0 := by
  rw [recorded, List.foldl_append]
  rfl

/-! ## The sizes a table grows through -/

theorem strictMono_sizes (hgrow : ∀ n, n < grow n) (c : Nat) : StrictMono fun i => grow^[i] c := by
  refine strictMono_nat_of_lt_succ fun i => ?_
  rw [Function.iterate_succ_apply']
  exact hgrow _

/-- A size is reached by growing at most as often as it has slots. -/
theorem exists_size_iff (hgrow : ∀ n, n < grow n) {c m : Nat} :
    (∃ i, grow^[i] c = m) ↔ ∃ i < m + 1, grow^[i] c = m := by
  constructor
  · rintro ⟨i, hi⟩
    have hle : i ≤ grow^[i] c := (strictMono_sizes hgrow c).le_apply
    exact ⟨i, by omega, hi⟩
  · rintro ⟨i, -, hi⟩
    exact ⟨i, hi⟩

/-- Whether requests fill a table can be computed: only as many sizes have to be looked at. -/
def Slots.decidableFills (hgrow : ∀ n, n < grow n) (s : Slots) (asks : List Ask) :
    Decidable (s.Fills grow asks) :=
  decidable_of_iff (asks.getLast? ≠ some .reserve ∧
      ∃ i < (s.base asks).used + recorded asks + 1,
        grow^[i] (s.base asks).size = (s.base asks).used + recorded asks)
    (and_congr_right fun _ => (exists_size_iff hgrow).symm)

/-- The table `t` after requests of which the last one is `last`, when `b` is the table since the
last cut. -/
structure Grown (grow : Nat → Nat) (b : Slots) (n : Nat) (last : Option Ask) (t : Slots) : Prop where
  used : t.used = b.used + n
  used_le : t.used ≤ t.size
  /-- It was full whenever it grew. -/
  sizes : ∃ j, t.size = grow^[j] b.size ∧ ∀ i < j, grow^[i] b.size ≤ t.used ∧
    (last ≠ some .reserve → grow^[i] b.size < t.used)
  room : last = some .reserve → t.used < t.size

theorem Slots.grown (hgrow : ∀ n, n < grow n) {s : Slots} (hs : s.used ≤ s.size) {asks : List Ask}
    (h : s.ServesAll grow asks) :
    Grown grow (s.base asks) (recorded asks) asks.getLast? (s.handleAll grow asks) := by
  induction asks using List.reverseRecOn with
  | nil => exact ⟨rfl, hs, ⟨0, rfl, by simp⟩, by simp⟩
  | append_singleton asks a ih =>
      obtain ⟨hasks, hlast⟩ := (s.servesAll_append asks [a]).1 h
      obtain ⟨hused, hle, ⟨j, hsize, hsizes⟩, -⟩ := ih hasks
      rw [Slots.handleAll_append, Slots.base_append, recorded_append, List.getLast?_concat]
      cases a with
      | reserve =>
          by_cases hroom : (s.handleAll grow asks).used < (s.handleAll grow asks).size
          · rw [Slots.handle, if_pos hroom]
            exact ⟨hused, hle, ⟨j, hsize, fun i hi => ⟨(hsizes i hi).1, fun h => absurd rfl h⟩⟩,
              fun _ => hroom⟩
          · rw [Slots.handle, if_neg hroom]
            have hfull : (s.handleAll grow asks).used = (s.handleAll grow asks).size :=
              Nat.le_antisymm hle (Nat.le_of_not_lt hroom)
            have hmore := hgrow (s.handleAll grow asks).size
            refine ⟨hused, hfull.trans_le hmore.le, ⟨j + 1, ?_, fun i hi => ?_⟩, fun _ => ?_⟩
            · show grow _ = _
              rw [Function.iterate_succ_apply', hsize]
            · refine ⟨?_, fun h => absurd rfl h⟩
              rcases Nat.lt_succ_iff_lt_or_eq.1 hi with hi | rfl
              · exact (hsizes i hi).1
              · exact (hsize.symm.trans hfull.symm).le
            · exact hfull.trans_lt hmore
      | record =>
          have hroom : (s.handleAll grow asks).used < (s.handleAll grow asks).size := hlast.1 rfl
          refine ⟨?_, hroom, ⟨j, hsize, fun i hi => ?_⟩, fun h => absurd h (by simp)⟩
          · show (s.handleAll grow asks).used + 1 = _
            rw [hused, Nat.add_assoc]
          · have hi' := (hsizes i hi).1
            exact ⟨hi'.trans (Nat.le_succ _), fun _ => Nat.lt_succ_of_le hi'⟩
      | cut k => exact ⟨rfl, le_rfl, ⟨0, rfl, by simp⟩, fun h => absurd h (by simp)⟩

/-- **When requests leave the table full.** -/
theorem Slots.full_iff (hgrow : ∀ n, n < grow n) {s : Slots} (hs : s.used ≤ s.size)
    {asks : List Ask} (h : s.ServesAll grow asks) :
    (s.handleAll grow asks).used = (s.handleAll grow asks).size ↔ s.Fills grow asks := by
  obtain ⟨hused, hle, ⟨j, hsize, hsizes⟩, hroom⟩ := Slots.grown hgrow hs h
  constructor
  · intro hfull
    refine ⟨fun hlast => ?_, j, ?_⟩
    · have := hroom hlast
      omega
    · rw [← hsize, ← hfull, hused]
  · rintro ⟨hlast, i, hi⟩
    rw [← hused] at hi
    have hij : i ≤ j := by
      have hsome : grow^[i] (s.base asks).size ≤ grow^[j] (s.base asks).size := by
        rw [hi, ← hsize]
        exact hle
      exact (strictMono_sizes hgrow _).le_iff_le.1 hsome
    rcases hij.lt_or_eq with hlt | rfl
    · -- a size the table has outgrown lies below the slots used since
      have := (hsizes i hlt).2 hlast
      omega
    · rw [hsize, hi]

end SlotTable
