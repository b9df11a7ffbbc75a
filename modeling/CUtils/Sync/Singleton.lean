import CUtils.Lib.Monitor

/-!
# The delayed singleton

`DelayedSingleton::GetInstance` looks at `instance_` without the mutex first, and only if it is null
takes the mutex, looks again, constructs the object and stores it. `DestroyInstance` clears
`instance_` under the mutex. `instance_` is loaded and stored atomically, so a thread does one access
at a time, and the other threads go on in between.

Objects have the number of their construction as their name. Whether `new (std::nothrow) T` finds
memory is up to the call.

Whatever the threads get, they could have got from a slot that is filled or cleared in one step
(`linearizable`).
-/

namespace CUtils.Singletons

open Monitor Threads

variable {ι : Type}

/-- `std::shared_ptr<T>`: the number of the object, or null. -/
abbrev Ptr := Option Nat

inductive Op
  /-- `room`: there is memory for the object, should it have to be constructed. -/
  | getInstance (room : Bool)
  | destroyInstance
  deriving DecidableEq

inductive Result
  | pointer (ptr : Ptr)
  | destroyed
  deriving DecidableEq

/-! ## The threads -/

/-- The next step of a thread. -/
inductive Pc
  | idle
  /-- The load of `GetInstance` outside the mutex. -/
  | load (room : Bool)
  | lock (room : Bool)
  /-- The load under the mutex. -/
  | check (room : Bool)
  | construct (room : Bool)
  | store (temp : Ptr)
  /-- The load that gives the result. -/
  | loadResult
  | lockDestroy
  | destroy
  | unlock (r : Result)
  | ret (r : Result)

def Pc.holds : Pc → Bool
  | .check _ | .construct _ | .store _ | .loadResult | .destroy | .unlock _ => true
  | .idle | .load _ | .lock _ | .lockDestroy | .ret _ => false

def Pc.stores : Pc → Bool
  | .store _ => true
  | _ => false

structure State (ι : Type) where
  instance_ : Ptr
  /-- How many objects have been constructed. -/
  made : Nat
  mutex : Option ι
  threads : ι → Pc
  history : List (Event ι Op Result)

namespace State

variable [DecidableEq ι]

def new : State ι where
  instance_ := none
  made := 0
  mutex := none
  threads _ := .idle
  history := []

def goto (s : State ι) (t : ι) (pc : Pc) : State ι :=
  { s with threads := Function.update s.threads t pc }

def lock (s : State ι) (t : ι) (pc : Pc) : State ι :=
  match s.mutex with
  | none => { s with mutex := some t }.goto t pc
  | some _ => s

def go (s : State ι) (t : ι) : State ι :=
  match s.threads t with
  | .idle => s
  | .load room =>
      match s.instance_ with
      | some n => s.goto t (.ret (.pointer (some n)))
      | none => s.goto t (.lock room)
  | .lock room => s.lock t (.check room)
  | .check room =>
      match s.instance_ with
      | some _ => s.goto t .loadResult
      | none => s.goto t (.construct room)
  | .construct true => { s with made := s.made + 1 }.goto t (.store (some s.made))
  | .construct false => s.goto t (.store none)
  | .store temp => { s with instance_ := temp }.goto t .loadResult
  | .loadResult => s.goto t (.unlock (.pointer s.instance_))
  | .lockDestroy => s.lock t .destroy
  | .destroy => { s with instance_ := none }.goto t (.unlock .destroyed)
  | .unlock r => { s with mutex := none }.goto t (.ret r)
  | .ret r => { s with history := s.history ++ [Event.ret t r] }.goto t .idle

/-- The first step of a call. -/
def start : Op → Pc
  | .getInstance room => .load room
  | .destroyInstance => .lockDestroy

def step (s : State ι) : ι × Act Op → State ι
  | (t, .call op) =>
      match s.threads t with
      | .idle => { s with history := s.history ++ [Event.call t op] }.goto t (start op)
      | _ => s
  | (t, .go) => s.go t

def run (s : State ι) (as : List (ι × Act Op)) : State ι := as.foldl step s

end State

/-! ## In one step -/

/-- The instance, and how many objects have been constructed. -/
structure Slot where
  instance_ : Ptr
  made : Nat

/-- An object is constructed if there is none. -/
def Slot.getInstance (room : Bool) (a : Slot) : Result × Slot :=
  match a.instance_ with
  | some n => (.pointer (some n), a)
  | none => if room then (.pointer (some a.made), ⟨some a.made, a.made + 1⟩) else (.pointer none, a)

def Slot.destroyInstance (a : Slot) : Result × Slot := (.destroyed, { a with instance_ := none })

def Slot.apply : Op → Slot → Result × Slot
  | .getInstance room => Slot.getInstance room
  | .destroyInstance => Slot.destroyInstance

def plan (op : Op) : Plan Unit Slot Result := .single () (Slot.apply op)

def planned : Planned ι Unit Slot Result Op := .new fun _ => ⟨none, 0⟩

/-! ## What is seen could be seen of the slot -/

/-- Where a thread is, beside what is left of its plan. An object that has been constructed and is
not stored yet is in the slot already. -/
def Stands (inst slot : Ptr) : Pc → Option (Plan Unit Slot Result) → Prop
  | .idle, p => p = none
  | .load room, p | .lock room, p | .check room, p => p = some (plan (.getInstance room))
  | .construct room, p => p = some (plan (.getInstance room)) ∧ inst = none
  | .store temp, p => p = some (.ret (.pointer temp)) ∧ slot = temp ∧ inst = none
  | .loadResult, p => p = some (.ret (.pointer inst))
  | .lockDestroy, p | .destroy, p => p = some (plan .destroyInstance)
  | .unlock r, p | .ret r, p => p = some (.ret r)

/-- Outside the mutex neither matters. -/
theorem Stands.outside {inst slot inst' slot' : Ptr} {pc : Pc} {p : Option (Plan Unit Slot Result)}
    (h : Stands inst slot pc p) (hout : pc.holds = false) : Stands inst' slot' pc p := by
  cases pc with
  | idle | load | lock | lockDestroy | ret => exact h
  | check | construct | store | loadResult | destroy | unlock => cases hout

theorem Pc.holds_of_stores {pc : Pc} (h : pc.stores = true) : pc.holds = true := by
  cases pc with
  | store => rfl
  | idle | load | lock | check | construct | loadResult | lockDestroy | destroy | unlock | ret =>
      cases h

structure Refines (s : State ι) (p : Planned ι Unit Slot Result Op) : Prop where
  mutex : Guarded Pc.holds s.mutex s.threads
  made : (p.object ()).made = s.made
  slot : (∀ t, (s.threads t).stores = false) → (p.object ()).instance_ = s.instance_
  threads : ∀ t, Stands s.instance_ (p.object ()).instance_ (s.threads t) (p.threads t)
  history : p.history = s.history

namespace Refines

variable {s : State ι} {p : Planned ι Unit Slot Result Op} {t : ι}

/-- Nobody is storing while another thread is inside. -/
theorem slot_of_holds (h : Refines s p) (ht : (s.threads t).holds = true)
    (hstores : (s.threads t).stores = false) : (p.object ()).instance_ = s.instance_ := by
  refine h.slot fun u => ?_
  rw [← Bool.not_eq_true]
  intro hu
  rw [h.mutex.unique ht (Pc.holds_of_stores hu), hstores] at hu
  cases hu

/-- Nobody is storing once the instance is there. -/
theorem slot_of_some (h : Refines s p) {n : Nat} (hinst : s.instance_ = some n) :
    (p.object ()).instance_ = some n := by
  rw [← hinst]
  refine h.slot fun u => ?_
  rw [← Bool.not_eq_true]
  intro hu
  have hstands := h.threads u
  cases hpc : s.threads u with
  | store temp =>
      rw [hpc] at hstands
      have hnone := hstands.2.2
      rw [hinst] at hnone
      cases hnone
  | idle | load | lock | check | construct | loadResult | lockDestroy | destroy | unlock | ret =>
      rw [hpc] at hu
      cases hu

variable [DecidableEq ι]

/-- One thread goes on; what it shares with the others it changes inside only. -/
theorem move {s' : State ι} {p' : Planned ι Unit Slot Result Op} {pc : Pc}
    {next : Option (Plan Unit Slot Result)} (h : Refines s p)
    (hthreads : s'.threads = Function.update s.threads t pc)
    (hplans : p'.threads = Function.update p.threads t next)
    (hmutex : Guarded Pc.holds s'.mutex s'.threads) (hmade : (p'.object ()).made = s'.made)
    (hhistory : p'.history = s'.history)
    (hinside : (s.threads t).holds = true ∨
      s'.instance_ = s.instance_ ∧ (p'.object ()).instance_ = (p.object ()).instance_)
    (hslot : pc.stores = true ∨ (p'.object ()).instance_ = s'.instance_ ∨
      s'.instance_ = s.instance_ ∧ (p'.object ()).instance_ = (p.object ()).instance_ ∧
        (s.threads t).stores = false)
    (hstands : Stands s'.instance_ (p'.object ()).instance_ pc next) : Refines s' p' := by
  refine ⟨hmutex, hmade, fun hnone => ?_, fun u => ?_, hhistory⟩
  · rw [hthreads] at hnone
    rcases hslot with hstores | heq | ⟨hinst, hsame, hout⟩
    · have := hnone t
      rw [Function.update_self, hstores] at this
      cases this
    · exact heq
    · rw [hinst, hsame]
      refine h.slot fun u => ?_
      by_cases hut : u = t
      · rw [hut]
        exact hout
      · have := hnone u
        rwa [Function.update_of_ne hut] at this
  · rw [hthreads, hplans]
    by_cases hut : u = t
    · rw [hut, Function.update_self, Function.update_self]
      exact hstands
    · rw [Function.update_of_ne hut, Function.update_of_ne hut]
      rcases hinside with hin | ⟨hinst, hsame⟩
      · refine (h.threads u).outside ?_
        rw [← Bool.not_eq_true]
        exact fun hu => hut (h.mutex.unique hin hu)
      · rw [hinst, hsame]
        exact h.threads u

/-- A step of a thread outside the mutex that changes nothing the threads share. -/
theorem outside {s' : State ι} {p' : Planned ι Unit Slot Result Op} {pc : Pc}
    {next : Option (Plan Unit Slot Result)} (h : Refines s p)
    (hthreads : s'.threads = Function.update s.threads t pc)
    (hplans : p'.threads = Function.update p.threads t next) (hobject : p'.object () = p.object ())
    (hinst : s'.instance_ = s.instance_) (hmade : s'.made = s.made) (hmutex : s'.mutex = s.mutex)
    (hhistory : p'.history = s'.history) (hout : (s.threads t).holds = false)
    (hpc : pc.holds = false)
    (hstands : Stands s.instance_ (p.object ()).instance_ pc next) : Refines s' p' := by
  have hguarded : Guarded Pc.holds s'.mutex s'.threads := by
    rw [hmutex, hthreads]
    exact h.mutex.stay (hpc.trans hout.symm)
  have hstores : (s.threads t).stores = false := by
    rw [← Bool.not_eq_true]
    intro hstores
    rw [Pc.holds_of_stores hstores] at hout
    cases hout
  have hslot : (p'.object ()).instance_ = (p.object ()).instance_ := by rw [hobject]
  refine h.move hthreads hplans hguarded ?_ hhistory (.inr ⟨hinst, hslot⟩)
    (.inr (.inr ⟨hinst, hslot, hstores⟩)) ?_
  · rw [hobject, hmade]
    exact h.made
  · rw [hinst, hslot]
    exact hstands

/-- The thread takes the mutex. -/
theorem enter {pc : Pc} (h : Refines s p) (hfree : s.mutex = none)
    (hout : (s.threads t).holds = false) (hpc : pc.holds = true)
    (hstands : Stands s.instance_ (p.object ()).instance_ pc (p.threads t)) :
    Refines ({ s with mutex := some t }.goto t pc) p := by
  have hplans : p.threads = Function.update p.threads t (p.threads t) :=
    (Function.update_eq_self _ _).symm
  have hout' : (s.threads t).stores = false := by
    rw [← Bool.not_eq_true]
    intro hin
    rw [Pc.holds_of_stores hin] at hout
    cases hout
  exact h.move rfl hplans (h.mutex.enter hfree hpc) h.made h.history (.inr ⟨rfl, rfl⟩)
    (.inr (.inr ⟨rfl, rfl, hout'⟩)) hstands

/-- A step under the mutex. -/
theorem inside {s' : State ι} {p' : Planned ι Unit Slot Result Op} {pc : Pc}
    {next : Option (Plan Unit Slot Result)} (h : Refines s p)
    (hthreads : s'.threads = Function.update s.threads t pc)
    (hplans : p'.threads = Function.update p.threads t next) (hmutex : s'.mutex = s.mutex)
    (hmade : (p'.object ()).made = s'.made) (hhistory : p'.history = s'.history)
    (hin : (s.threads t).holds = true) (hpc : pc.holds = true)
    (hslot : pc.stores = true ∨ (p'.object ()).instance_ = s'.instance_)
    (hstands : Stands s'.instance_ (p'.object ()).instance_ pc next) : Refines s' p' := by
  have hguarded : Guarded Pc.holds s'.mutex s'.threads := by
    rw [hmutex, hthreads]
    exact h.mutex.stay (hpc.trans hin.symm)
  exact h.move hthreads hplans hguarded hmade hhistory (.inl hin) (hslot.imp_right .inl) hstands

omit [DecidableEq ι] in
/-- The plan of a call is performed. -/
theorem go_plan [DecidableEq ι] {op : Op} (hplan : p.threads t = some (plan op)) :
    (p.go t).object () = (Slot.apply op (p.object ())).2 ∧
      (p.go t).threads =
        Function.update p.threads t (some (.ret (Slot.apply op (p.object ())).1)) ∧
      (p.go t).history = p.history := by
  have hgo : p.go t = { p with
      object := Function.update p.object () (Slot.apply op (p.object ())).2 }.goto t
        (some (.ret (Slot.apply op (p.object ())).1)) := by
    rw [Planned.go, hplan]
    rfl
  rw [hgo]
  have hself := Function.update_self () (Slot.apply op (p.object ())).2 p.object
  exact ⟨hself, rfl, rfl⟩

/-- The load outside the mutex. -/
theorem go_load {room : Bool} (h : Refines s p) (ht : s.threads t = .load room) :
    Refines (s.go t) p ∨ Refines (s.go t) (p.go t) := by
  have hstands := h.threads t
  have hout : (s.threads t).holds = false := by rw [ht]; rfl
  rw [ht] at hstands
  cases hinst : s.instance_ with
  | none =>
      left
      simp only [State.go, ht, hinst]
      exact h.outside rfl (Function.update_eq_self _ _).symm rfl rfl rfl rfl h.history hout rfl hstands
  | some n =>
      right
      have hslot := h.slot_of_some hinst
      have hget : Slot.apply (.getInstance room) (p.object ()) = (.pointer (some n), p.object ()) := by
        simp only [Slot.apply, Slot.getInstance, hslot]
      obtain ⟨hobject, hplans, hhistory⟩ := go_plan hstands
      rw [hget] at hobject hplans
      simp only [State.go, ht, hinst]
      exact h.outside rfl hplans hobject rfl rfl rfl (hhistory.trans h.history) hout rfl rfl

/-- The mutex is taken, or the thread waits. -/
theorem go_lock {pc pc' : Pc} (h : Refines s p) (ht : s.threads t = pc) (hout : pc.holds = false)
    (hin : pc'.holds = true)
    (hstands : Stands s.instance_ (p.object ()).instance_ pc (p.threads t) →
      Stands s.instance_ (p.object ()).instance_ pc' (p.threads t)) :
    Refines (s.lock t pc') p := by
  have hthread := h.threads t
  rw [ht] at hthread
  cases hfree : s.mutex with
  | none =>
      simp only [State.lock, hfree]
      exact h.enter hfree (by rw [ht, hout]) hin (hstands hthread)
  | some u =>
      simp only [State.lock, hfree]
      exact h

/-- The load under the mutex. -/
theorem go_check {room : Bool} (h : Refines s p) (ht : s.threads t = .check room) :
    Refines (s.go t) p ∨ Refines (s.go t) (p.go t) := by
  have hstands := h.threads t
  have hin : (s.threads t).holds = true := by rw [ht]; rfl
  have hslot := h.slot_of_holds hin (by rw [ht]; rfl)
  rw [ht] at hstands
  cases hinst : s.instance_ with
  | none =>
      left
      simp only [State.go, ht, hinst]
      exact h.inside rfl (Function.update_eq_self _ _).symm rfl h.made h.history hin rfl (.inr hslot)
        ⟨hstands, hinst⟩
  | some n =>
      right
      have hget : Slot.apply (.getInstance room) (p.object ()) = (.pointer (some n), p.object ()) := by
        simp only [Slot.apply, Slot.getInstance, hslot, hinst]
      obtain ⟨hobject, hplans, hhistory⟩ := go_plan hstands
      rw [hget] at hobject hplans
      simp only [State.go, ht, hinst]
      refine h.inside rfl hplans rfl ?_ (hhistory.trans h.history) hin rfl (.inr ?_) ?_
      · rw [hobject]
        exact h.made
      · rw [hobject]
        exact hslot
      · show some _ = some (Plan.ret (Result.pointer s.instance_))
        rw [hinst]

/-- The slot is filled when the object is constructed. -/
theorem go_construct {room : Bool} (h : Refines s p) (ht : s.threads t = .construct room) :
    Refines (s.go t) (p.go t) := by
  have hstands := h.threads t
  have hin : (s.threads t).holds = true := by rw [ht]; rfl
  have hslot := h.slot_of_holds hin (by rw [ht]; rfl)
  rw [ht] at hstands
  obtain ⟨hstands, hinst⟩ := hstands
  rw [hinst] at hslot
  obtain ⟨hobject, hplans, hhistory⟩ := go_plan hstands
  cases room with
  | true =>
      have hget : Slot.apply (.getInstance true) (p.object ()) =
          (.pointer (some s.made), ⟨some s.made, s.made + 1⟩) := by
        simp only [Slot.apply, Slot.getInstance, hslot, h.made, if_true]
      rw [hget] at hobject hplans
      simp only [State.go, ht]
      refine h.inside rfl hplans rfl ?_ (hhistory.trans h.history) hin rfl (.inl rfl) ⟨rfl, ?_, hinst⟩
      · rw [hobject]
        rfl
      · rw [hobject]
  | false =>
      have hget : Slot.apply (.getInstance false) (p.object ()) = (.pointer none, p.object ()) := by
        simp only [Slot.apply, Slot.getInstance, hslot, Bool.false_eq_true, if_false]
      rw [hget] at hobject hplans
      simp only [State.go, ht]
      refine h.inside rfl hplans rfl ?_ (hhistory.trans h.history) hin rfl (.inl rfl) ⟨rfl, ?_, hinst⟩
      · rw [hobject]
        exact h.made
      · rw [hobject]
        exact hslot

theorem go_destroy (h : Refines s p) (ht : s.threads t = .destroy) :
    Refines (s.go t) (p.go t) := by
  have hstands := h.threads t
  rw [ht] at hstands
  obtain ⟨hobject, hplans, hhistory⟩ := go_plan hstands
  simp only [State.go, ht]
  refine h.inside rfl hplans rfl ?_ (hhistory.trans h.history) (by rw [ht]; rfl) rfl (.inr ?_) rfl
  · rw [hobject]
    exact h.made
  · rw [hobject]
    rfl

theorem go_ret {r : Result} (h : Refines s p) (ht : s.threads t = .ret r) :
    Refines (s.go t) (p.go t) := by
  have hstands := h.threads t
  rw [ht] at hstands
  have hplan : p.threads t = some (.ret r) := hstands
  have hgo : p.go t = { p with history := p.history ++ [Event.ret t r] }.goto t none := by
    rw [Planned.go, hplan]
  rw [hgo]
  simp only [State.go, ht]
  refine h.outside rfl rfl rfl rfl rfl rfl ?_ (by rw [ht]; rfl) rfl rfl
  show p.history ++ _ = s.history ++ _
  rw [h.history]

/-- One step is one of the plans, or none. -/
theorem step (h : Refines s p) (a : ι × Act Op) :
    Refines (s.step a) p ∨ Refines (s.step a) (p.step plan a) := by
  obtain ⟨t, a⟩ := a
  have hstands := h.threads t
  have hsame : p.threads = Function.update p.threads t (p.threads t) :=
    (Function.update_eq_self _ _).symm
  cases a with
  | call op =>
      cases ht : s.threads t with
      | idle =>
          rw [ht] at hstands
          right
          simp only [State.step, Planned.step, ht, show p.threads t = none from hstands]
          refine h.outside rfl rfl rfl rfl rfl rfl ?_ ?_ ?_ ?_
          · show p.history ++ _ = s.history ++ _
            rw [h.history]
          · rw [ht]
            rfl
          · cases op <;> rfl
          · cases op <;> rfl
      | load | lock | check | construct | store | loadResult | lockDestroy | destroy | unlock | ret =>
          left
          simp only [State.step, ht]
          exact h
  | go =>
      show Refines (s.go t) p ∨ Refines (s.go t) (p.go t)
      cases ht : s.threads t with
      | idle =>
          left
          rw [State.go, ht]
          exact h
      | load room => exact h.go_load ht
      | lock room =>
          left
          rw [State.go, ht]
          exact h.go_lock ht rfl rfl id
      | check room => exact h.go_check ht
      | construct room => exact .inr (h.go_construct ht)
      | store temp =>
          left
          rw [ht] at hstands
          obtain ⟨hplan, hslot, -⟩ := hstands
          simp only [State.go, ht]
          exact h.inside rfl hsame rfl h.made h.history (by rw [ht]; rfl) rfl (.inr hslot) hplan
      | loadResult =>
          left
          have hslot := h.slot_of_holds (t := t) (by rw [ht]; rfl) (by rw [ht]; rfl)
          rw [ht] at hstands
          simp only [State.go, ht]
          exact h.inside rfl hsame rfl h.made h.history (by rw [ht]; rfl) rfl (.inr hslot) hstands
      | lockDestroy =>
          left
          rw [State.go, ht]
          exact h.go_lock ht rfl rfl id
      | destroy => exact .inr (h.go_destroy ht)
      | unlock r =>
          left
          have hslot := h.slot_of_holds (t := t) (by rw [ht]; rfl) (by rw [ht]; rfl)
          rw [ht] at hstands
          simp only [State.go, ht]
          exact h.move rfl hsame (h.mutex.leave (by rw [ht]; rfl) rfl) h.made h.history
            (.inr ⟨rfl, rfl⟩) (.inr (.inl hslot)) hstands
      | ret r => exact .inr (h.go_ret ht)

/-- By induction on the run. -/
theorem run (h : Refines s p) (as : List (ι × Act Op)) :
    ∃ bs, Refines (s.run as) (p.run plan bs) := by
  induction as generalizing s p with
  | nil => exact ⟨[], h⟩
  | cons a as ih =>
      rcases h.step a with hstep | hstep
      · exact ih hstep
      · obtain ⟨bs, hbs⟩ := ih hstep
        exact ⟨a :: bs, hbs⟩

omit [DecidableEq ι] in
theorem new : Refines (State.new : State ι) planned where
  mutex _ := iff_of_false Bool.false_ne_true fun heq => by cases heq
  made := rfl
  slot _ := rfl
  threads _ := rfl
  history := rfl

end Refines

variable [DecidableEq ι]

/-- **`GetInstance` and `DestroyInstance` act in one step.** What any number of threads call and get
back, they could have called and got back of the slot, in the same order; and when the mutex is free,
`instance_` is what the slot holds. -/
theorem slot_history (as : List (ι × Act Op)) :
    ∃ bs : List (ι × Act Op),
      (planned.run plan bs).history = (State.new.run as).history ∧
      ((planned.run plan bs).object ()).made = (State.new.run as).made ∧
      ((State.new.run as).mutex = none →
        ((planned.run plan bs).object ()).instance_ = (State.new.run as).instance_) := by
  obtain ⟨bs, h⟩ := (Refines.new (ι := ι)).run as
  refine ⟨bs, h.history, h.made, fun hfree => h.slot fun t => ?_⟩
  rw [← Bool.not_eq_true]
  intro hstores
  have hout := h.mutex.outside hfree t
  rw [Pc.holds_of_stores hstores] at hout
  cases hout

end CUtils.Singletons
