import CUtils.Lib.Threads

/-!
# Methods that work under a mutex

Objects with a mutex each, and threads that call methods on them. A method is a sequence of critical
sections, of any objects, one after the other; a section is a sequence of accesses to its object, and
between two accesses the other threads go on. The types say that an object is accessed by the thread
that has its mutex, and that no thread has two.

A `Plan` says what a method is to do: one step for each of its sections. A method `Implements` it if
each section as a whole does what the step says. Then whatever the threads are seen to call and to
get back, in whatever order, they could also have seen of the plans (`history_of_plans`). For methods
of one section this is linearizability.

Nobody blocks forever: from wherever a run has come to, the calls can be brought to their end
(`can_finish`).

What the calls give back is bounded by what an object is worth and what the calls have cost, if each
plan `Pays` for itself (`gains_le`).
-/

namespace Monitor

open Threads

variable {ι ω σ α ρ β γ Op : Type}

/-! ## Sections and methods -/

/-- The part of a method under the mutex: accesses to the object, until it is left. -/
inductive Section (σ β : Type)
  | leave (b : β)
  /-- The object is changed; what comes next depends on what it was. -/
  | access (upd : σ → σ) (rest : σ → Section σ β)

namespace Section

/-- The section without anything in between: where it leads to, and the object it leaves. -/
def run : Section σ β → σ → β × σ
  | .leave b, s => (b, s)
  | .access upd rest, s => (rest s).run (upd s)

def bind : Section σ β → (β → Section σ γ) → Section σ γ
  | .leave b, f => f b
  | .access upd rest, f => .access upd fun s => (rest s).bind f

instance : Monad (Section σ) where
  pure := .leave
  bind := bind

/-- One access. -/
def call (f : σ → β × σ) : Section σ β := .access (fun s => (f s).2) fun s => .leave (f s).1

@[simp] theorem run_leave (b : β) (s : σ) : (leave b).run s = (b, s) := rfl

@[simp] theorem run_access (upd : σ → σ) (rest : σ → Section σ β) (s : σ) :
    (access upd rest).run s = (rest s).run (upd s) := rfl

@[simp] theorem run_call (f : σ → β × σ) (s : σ) : (call f).run s = f s := rfl

@[simp] theorem run_pure (b : β) (s : σ) : (pure b : Section σ β).run s = (b, s) := rfl

@[simp] theorem run_bind (m : Section σ β) (f : β → Section σ γ) (s : σ) :
    (m >>= f).run s = (f (m.run s).1).run (m.run s).2 := by
  induction m generalizing s with
  | leave b => rfl
  | access upd rest ih => exact ih s (upd s)

theorem run_ite (c : Prop) [Decidable c] (m m' : Section σ β) (s : σ) :
    (if c then m else m').run s = if c then m.run s else m'.run s := by
  split <;> rfl

end Section

/-- A method: sections, and at last the result. -/
inductive Code (ω σ ρ : Type)
  | ret (r : ρ)
  | lock (o : ω) (body : Section σ (Code ω σ ρ))

/-- A method of one section. -/
def Code.single (o : ω) (body : Section σ ρ) : Code ω σ ρ := .lock o (body >>= fun r => .leave (.ret r))

/-- What a method is to do. -/
inductive Plan (ω α ρ : Type)
  | ret (r : ρ)
  | perform (o : ω) (upd : α → α) (rest : α → Plan ω α ρ)

def Plan.single (o : ω) (f : α → ρ × α) : Plan ω α ρ :=
  .perform o (fun a => (f a).2) fun a => .ret (f a).1

/-- Each section of the method does what the plan says, if an object `s` stands for `abs s`. -/
inductive Implements (abs : σ → α) : Code ω σ ρ → Plan ω α ρ → Prop
  | ret (r : ρ) : Implements abs (.ret r) (.ret r)
  | lock (o : ω) (body : Section σ (Code ω σ ρ)) (upd : α → α) (rest : α → Plan ω α ρ)
      (hupd : ∀ s, abs (body.run s).2 = upd (abs s))
      (hrest : ∀ s, Implements abs (body.run s).1 (rest (abs s))) :
      Implements abs (.lock o body) (.perform o upd rest)

theorem Implements.single {abs : σ → α} {o : ω} {body : Section σ ρ} {f : α → ρ × α}
    (h : ∀ s, f (abs s) = ((body.run s).1, abs (body.run s).2)) :
    Implements abs (Code.single o body) (Plan.single o f) := by
  refine .lock o _ _ _ (fun s => ?_) fun s => ?_
  · rw [h s, Section.run_bind]
    rfl
  · rw [h s, Section.run_bind]
    exact .ret _

/-! ## Runs -/

/-- What is seen from outside. -/
inductive Event (ι Op ρ : Type)
  | call (t : ι) (op : Op)
  | ret (t : ι) (r : ρ)

inductive Act (Op : Type)
  | call (op : Op)
  | go

/-- The next step of a thread. -/
inductive Pc (ω σ ρ : Type)
  | idle
  | outside (c : Code ω σ ρ)
  | inside (o : ω) (body : Section σ (Code ω σ ρ))

def Pc.holds [DecidableEq ω] (o : ω) : Pc ω σ ρ → Bool
  | .inside o' _ => o' = o
  | _ => false

structure State (ι ω σ ρ Op : Type) where
  object : ω → σ
  owner : ω → Option ι
  threads : ι → Pc ω σ ρ
  history : List (Event ι Op ρ)

namespace State

variable [DecidableEq ι] [DecidableEq ω]

def new (object : ω → σ) : State ι ω σ ρ Op where
  object := object
  owner _ := none
  threads _ := .idle
  history := []

def goto (s : State ι ω σ ρ Op) (t : ι) (pc : Pc ω σ ρ) : State ι ω σ ρ Op :=
  { s with threads := Function.update s.threads t pc }

def lock (s : State ι ω σ ρ Op) (t : ι) (o : ω) (body : Section σ (Code ω σ ρ)) : State ι ω σ ρ Op :=
  match s.owner o with
  | none => { s with owner := Function.update s.owner o (some t) }.goto t (.inside o body)
  | some _ => s

def go (s : State ι ω σ ρ Op) (t : ι) : State ι ω σ ρ Op :=
  match s.threads t with
  | .idle => s
  | .outside (.ret r) => { s with history := s.history ++ [Event.ret t r] }.goto t .idle
  | .outside (.lock o body) => s.lock t o body
  | .inside o (.leave c) => { s with owner := Function.update s.owner o none }.goto t (.outside c)
  | .inside o (.access upd rest) =>
      { s with object := Function.update s.object o (upd (s.object o)) }.goto t
        (.inside o (rest (s.object o)))

def step (code : Op → Code ω σ ρ) (s : State ι ω σ ρ Op) : ι × Act Op → State ι ω σ ρ Op
  | (t, .call op) =>
      match s.threads t with
      | .idle => { s with history := s.history ++ [Event.call t op] }.goto t (.outside (code op))
      | _ => s
  | (t, .go) => s.go t

def run (code : Op → Code ω σ ρ) (s : State ι ω σ ρ Op) (as : List (ι × Act Op)) : State ι ω σ ρ Op :=
  as.foldl (step code) s

end State

/-- The same with plans: a step is a whole section. -/
structure Planned (ι ω α ρ Op : Type) where
  object : ω → α
  threads : ι → Option (Plan ω α ρ)
  history : List (Event ι Op ρ)

namespace Planned

variable [DecidableEq ι] [DecidableEq ω]

def new (object : ω → α) : Planned ι ω α ρ Op where
  object := object
  threads _ := none
  history := []

def goto (s : Planned ι ω α ρ Op) (t : ι) (pc : Option (Plan ω α ρ)) : Planned ι ω α ρ Op :=
  { s with threads := Function.update s.threads t pc }

def go (s : Planned ι ω α ρ Op) (t : ι) : Planned ι ω α ρ Op :=
  match s.threads t with
  | none => s
  | some (.ret r) => { s with history := s.history ++ [Event.ret t r] }.goto t none
  | some (.perform o upd rest) =>
      { s with object := Function.update s.object o (upd (s.object o)) }.goto t (some (rest (s.object o)))

def step (plan : Op → Plan ω α ρ) (s : Planned ι ω α ρ Op) : ι × Act Op → Planned ι ω α ρ Op
  | (t, .call op) =>
      match s.threads t with
      | none => { s with history := s.history ++ [Event.call t op] }.goto t (some (plan op))
      | some _ => s
  | (t, .go) => s.go t

def run (plan : Op → Plan ω α ρ) (s : Planned ι ω α ρ Op) (as : List (ι × Act Op)) :
    Planned ι ω α ρ Op := as.foldl (step plan) s

end Planned

/-! ## What is seen could be seen of the plans -/

section

variable [DecidableEq ω] {abs : σ → α} {s : State ι ω σ ρ Op} {t u : ι} {o : ω}

/-- A thread that is in a section has got as far with the plan as at the end of the section. -/
def Stands (abs : σ → α) (object : ω → σ) : Pc ω σ ρ → Option (Plan ω α ρ) → Prop
  | .idle, plan => plan = none
  | .outside c, plan => ∃ p, plan = some p ∧ Implements abs c p
  | .inside o body, plan => ∃ p, plan = some p ∧ Implements abs (body.run (object o)).1 p

structure Refines (abs : σ → α) (s : State ι ω σ ρ Op) (p : Planned ι ω α ρ Op) : Prop where
  mutex : ∀ o, Guarded (Pc.holds o) (s.owner o) s.threads
  free : ∀ o, s.owner o = none → p.object o = abs (s.object o)
  /-- The section that is under way has been performed. -/
  held : ∀ t o body, s.threads t = .inside o body → p.object o = abs (body.run (s.object o)).2
  threads : ∀ t, Stands abs s.object (s.threads t) (p.threads t)
  history : p.history = s.history

namespace Refines

variable {p : Planned ι ω α ρ Op}

theorem holds_inside {body : Section σ (Code ω σ ρ)} (ht : s.threads t = .inside o body) :
    (s.threads t).holds o = true := by
  rw [ht]
  exact decide_eq_true rfl

/-- The owner of an object is in a section of it. -/
theorem owned (h : Refines abs s p) {body : Section σ (Code ω σ ρ)} (ht : s.threads t = .inside o body) :
    s.owner o = some t := (h.mutex o t).1 (holds_inside ht)

variable [DecidableEq ι]

/-- A thread outside the sections goes on outside. -/
theorem outside {s' : State ι ω σ ρ Op} {p' : Planned ι ω α ρ Op} {pc : Pc ω σ ρ}
    {plan : Option (Plan ω α ρ)} (h : Refines abs s p)
    (hthreads : s'.threads = Function.update s.threads t pc)
    (hplans : p'.threads = Function.update p.threads t plan) (hobject : s'.object = s.object)
    (hplanned : p'.object = p.object) (howner : s'.owner = s.owner) (hhistory : p'.history = s'.history)
    (hout : ∀ o, (s.threads t).holds o = false) (hin : ∀ o, pc.holds o = false)
    (hstands : Stands abs s.object pc plan) : Refines abs s' p' where
  mutex o := by
    rw [hthreads, howner]
    exact (h.mutex o).stay ((hin o).trans (hout o).symm)
  free o ho := by
    rw [hplanned, hobject]
    exact h.free o (howner ▸ ho)
  held u o body hu := by
    rw [hthreads] at hu
    rw [hplanned, hobject]
    by_cases hut : u = t
    · rw [hut, Function.update_self] at hu
      have hpc := hin o
      rw [hu] at hpc
      exact absurd rfl (of_decide_eq_false hpc)
    · rw [Function.update_of_ne hut] at hu
      exact h.held u o body hu
  threads u := by
    rw [hthreads, hplans, hobject]
    by_cases hut : u = t
    · rw [hut, Function.update_self, Function.update_self]
      exact hstands
    · rw [Function.update_of_ne hut, Function.update_of_ne hut]
      exact h.threads u
  history := hhistory

/-- The mutex is taken: the plan performs the whole section. -/
theorem enter {body : Section σ (Code ω σ ρ)} {upd : α → α} {rest : α → Plan ω α ρ}
    (h : Refines abs s p) (ht : s.threads t = .outside (.lock o body)) (hfree : s.owner o = none)
    (hplan : p.threads t = some (.perform o upd rest))
    (hupd : ∀ s, abs (body.run s).2 = upd (abs s))
    (hrest : ∀ s, Implements abs (body.run s).1 (rest (abs s))) :
    Refines abs ({ s with owner := Function.update s.owner o (some t) }.goto t (.inside o body))
      (p.go t) := by
  have hobject := h.free o hfree
  have hgo : p.go t = { p with object := Function.update p.object o (upd (p.object o)) }.goto t
      (some (rest (p.object o))) := by
    rw [Planned.go, hplan]
  rw [hgo]
  refine ⟨fun o' => ?_, fun o' ho' => ?_, fun u o' body' hu => ?_, fun u => ?_, h.history⟩
  · show Guarded _ (Function.update s.owner o (some t) o') (Function.update s.threads t _)
    by_cases ho : o' = o
    · rw [ho, Function.update_self]
      exact (h.mutex o).enter hfree (decide_eq_true rfl)
    · rw [Function.update_of_ne ho]
      refine (h.mutex o').stay ?_
      rw [ht]
      exact decide_eq_false fun heq => ho heq.symm
  · have howner : Function.update s.owner o (some t) o' = none := ho'
    show Function.update p.object o _ o' = _
    by_cases ho : o' = o
    · rw [ho, Function.update_self] at howner
      cases howner
    · rw [Function.update_of_ne ho] at howner ⊢
      exact h.free o' howner
  · have hpc : Function.update s.threads t (.inside o body) u = .inside o' body' := hu
    show Function.update p.object o _ o' = _
    by_cases hut : u = t
    · rw [hut, Function.update_self] at hpc
      obtain ⟨rfl, rfl⟩ := Pc.inside.inj hpc
      rw [Function.update_self, hobject]
      exact (hupd _).symm
    · rw [Function.update_of_ne hut] at hpc
      have hne : o' ≠ o := by
        intro heq
        have howned := h.owned hpc
        rw [heq, hfree] at howned
        cases howned
      rw [Function.update_of_ne hne]
      exact h.held u o' body' hpc
  · show Stands abs s.object (Function.update s.threads t _ u) (Function.update p.threads t _ u)
    by_cases hut : u = t
    · rw [hut, Function.update_self, Function.update_self]
      exact ⟨_, rfl, hobject ▸ hrest (s.object o)⟩
    · rw [Function.update_of_ne hut, Function.update_of_ne hut]
      exact h.threads u

/-- The object is accessed: that has been performed. -/
theorem access {upd : σ → σ} {rest : σ → Section σ (Code ω σ ρ)} (h : Refines abs s p)
    (ht : s.threads t = .inside o (.access upd rest)) :
    Refines abs ({ s with object := Function.update s.object o (upd (s.object o)) }.goto t
      (.inside o (rest (s.object o)))) p := by
  have howned := h.owned ht
  have hother : ∀ u body, u ≠ t → s.threads u ≠ .inside o body := by
    intro u body hut hu
    have hu' := h.owned hu
    rw [howned] at hu'
    exact hut (Option.some.inj hu').symm
  refine ⟨fun o' => ?_, fun o' ho' => ?_, fun u o' body' hu => ?_, fun u => ?_, h.history⟩
  · refine (h.mutex o').stay ?_
    rw [ht]
    rfl
  · show _ = abs (Function.update s.object o _ o')
    have hne : o' ≠ o := by
      intro heq
      have hfree : s.owner o' = none := ho'
      rw [heq, howned] at hfree
      cases hfree
    rw [Function.update_of_ne hne]
    exact h.free o' ho'
  · have hpc : Function.update s.threads t (.inside o (rest (s.object o))) u = .inside o' body' := hu
    show _ = abs (body'.run (Function.update s.object o _ o')).2
    by_cases hut : u = t
    · rw [hut, Function.update_self] at hpc
      obtain ⟨rfl, rfl⟩ := Pc.inside.inj hpc
      rw [Function.update_self]
      exact h.held t o _ ht
    · rw [Function.update_of_ne hut] at hpc
      have hne : o' ≠ o := by
        intro heq
        rw [heq] at hpc
        exact hother u body' hut hpc
      rw [Function.update_of_ne hne]
      exact h.held u o' body' hpc
  · show Stands abs (Function.update s.object o _) (Function.update s.threads t _ u) (p.threads u)
    have hu := h.threads u
    by_cases hut : u = t
    · rw [hut, Function.update_self]
      rw [hut, ht] at hu
      obtain ⟨plan, hplan, himpl⟩ := hu
      refine ⟨plan, hplan, ?_⟩
      rw [Function.update_self]
      exact himpl
    · rw [Function.update_of_ne hut]
      cases hpc : s.threads u with
      | idle =>
          rw [hpc] at hu
          exact hu
      | outside c =>
          rw [hpc] at hu
          exact hu
      | inside o' body' =>
          have hne : o' ≠ o := by
            intro heq
            rw [heq] at hpc
            exact hother u body' hut hpc
          rw [hpc] at hu
          obtain ⟨plan, hplan, himpl⟩ := hu
          refine ⟨plan, hplan, ?_⟩
          rw [Function.update_of_ne hne]
          exact himpl

/-- The mutex is given back. -/
theorem leave {c : Code ω σ ρ} (h : Refines abs s p) (ht : s.threads t = .inside o (.leave c)) :
    Refines abs ({ s with owner := Function.update s.owner o none }.goto t (.outside c)) p := by
  refine ⟨fun o' => ?_, fun o' ho' => ?_, fun u o' body' hu => ?_, fun u => ?_, h.history⟩
  · show Guarded _ (Function.update s.owner o none o') (Function.update s.threads t _)
    by_cases ho : o' = o
    · rw [ho, Function.update_self]
      exact (h.mutex o).leave (holds_inside ht) rfl
    · rw [Function.update_of_ne ho]
      refine (h.mutex o').stay ?_
      rw [ht]
      exact (decide_eq_false fun heq => ho heq.symm).symm
  · have howner : Function.update s.owner o none o' = none := ho'
    by_cases ho : o' = o
    · rw [ho]
      exact h.held t o _ ht
    · rw [Function.update_of_ne ho] at howner
      exact h.free o' howner
  · have hpc : Function.update s.threads t (.outside c) u = .inside o' body' := hu
    by_cases hut : u = t
    · rw [hut, Function.update_self] at hpc
      cases hpc
    · rw [Function.update_of_ne hut] at hpc
      exact h.held u o' body' hpc
  · show Stands abs s.object (Function.update s.threads t _ u) (p.threads u)
    have hu := h.threads u
    by_cases hut : u = t
    · rw [hut, Function.update_self]
      rw [hut, ht] at hu
      exact hu
    · rw [Function.update_of_ne hut]
      exact hu

/-- One step is one of the plans, or none. -/
theorem step {code : Op → Code ω σ ρ} {plan : Op → Plan ω α ρ}
    (himpl : ∀ op, Implements abs (code op) (plan op)) (h : Refines abs s p) (a : ι × Act Op) :
    Refines abs (s.step code a) p ∨ Refines abs (s.step code a) (p.step plan a) := by
  obtain ⟨t, a⟩ := a
  have hstands := h.threads t
  cases a with
  | call op =>
      cases ht : s.threads t with
      | idle =>
          rw [ht] at hstands
          right
          simp only [State.step, Planned.step, ht, show p.threads t = none from hstands]
          refine h.outside rfl rfl rfl rfl rfl ?_ ?_ (fun _ => rfl) ⟨_, rfl, himpl op⟩
          · show p.history ++ _ = s.history ++ _
            rw [h.history]
          · rw [ht]
            exact fun _ => rfl
      | outside | inside =>
          left
          simp only [State.step, ht]
          exact h
  | go =>
      show Refines abs (s.go t) p ∨ Refines abs (s.go t) (p.go t)
      cases ht : s.threads t with
      | idle =>
          left
          rw [State.go, ht]
          exact h
      | outside c =>
          rw [ht] at hstands
          obtain ⟨plan, hplan, himplements⟩ := hstands
          cases himplements with
          | ret r =>
              right
              rw [State.go, ht, Planned.go, hplan]
              refine h.outside rfl rfl rfl rfl rfl ?_ ?_ (fun _ => rfl) rfl
              · show p.history ++ _ = s.history ++ _
                rw [h.history]
              · rw [ht]
                exact fun _ => rfl
          | lock o body upd rest hupd hrest =>
              cases hfree : s.owner o with
              | none =>
                  right
                  simp only [State.go, ht, State.lock, hfree]
                  exact h.enter ht hfree hplan hupd hrest
              | some u =>
                  left
                  simp only [State.go, ht, State.lock, hfree]
                  exact h
      | inside o body =>
          left
          cases body with
          | leave c =>
              rw [State.go, ht]
              exact h.leave ht
          | access upd rest =>
              rw [State.go, ht]
              exact h.access ht

/-- By induction on the run. -/
theorem run {code : Op → Code ω σ ρ} {plan : Op → Plan ω α ρ}
    (himpl : ∀ op, Implements abs (code op) (plan op)) (h : Refines abs s p) (as : List (ι × Act Op)) :
    ∃ bs, Refines abs (s.run code as) (p.run plan bs) := by
  induction as generalizing s p with
  | nil => exact ⟨[], h⟩
  | cons a as ih =>
      rcases h.step himpl a with hstep | hstep
      · exact ih hstep
      · obtain ⟨bs, hbs⟩ := ih hstep
        exact ⟨a :: bs, hbs⟩

omit [DecidableEq ι] in
theorem new (object : ω → σ) : Refines abs (State.new object : State ι ω σ ρ Op)
    (Planned.new fun o => abs (object o)) where
  mutex _ _ := iff_of_false Bool.false_ne_true fun heq => by cases heq
  free _ _ := rfl
  held _ _ _ hu := by cases hu
  threads _ := rfl
  history := rfl

end Refines

variable [DecidableEq ι]

/-- What the threads call and get back could as well have been called and given back by the plans, in
the same order; and when nobody is in a section, the objects are what the plans have made. -/
theorem history_of_plans {code : Op → Code ω σ ρ} {plan : Op → Plan ω α ρ}
    (himpl : ∀ op, Implements abs (code op) (plan op)) (object : ω → σ) (as : List (ι × Act Op)) :
    ∃ bs : List (ι × Act Op),
      ((Planned.new fun o => abs (object o)).run plan bs).history =
        ((State.new object).run code as).history ∧
      ∀ o, ((State.new object).run code as).owner o = none →
        ((Planned.new fun o => abs (object o)).run plan bs).object o =
          abs (((State.new object).run code as).object o) := by
  have hnew : Refines abs (State.new object : State ι ω σ ρ Op) (Planned.new fun o => abs (object o)) :=
    Refines.new object
  obtain ⟨bs, h⟩ := hnew.run himpl as
  exact ⟨bs, h.history, h.free⟩

/-! ## Nobody blocks forever -/

namespace Refines

variable {p : Planned ι ω α ρ Op}

/-- `t` comes to the end of its section, whatever the others are at. -/
theorem finish_section {body : Section σ (Code ω σ ρ)} (h : Refines abs s p)
    (ht : s.threads t = .inside o body) :
    ∃ ts : List ι, Refines abs (ts.foldl State.go s) p ∧ (ts.foldl State.go s).threads =
      Function.update s.threads t (.outside (body.run (s.object o)).1) := by
  induction body generalizing s with
  | leave c =>
      refine ⟨[t], ?_, ?_⟩
      · rw [List.foldl_cons, State.go, ht]
        exact h.leave ht
      · rw [List.foldl_cons, State.go, ht]
        rfl
  | access upd rest ih =>
      have hgo : s.go t = { s with object := Function.update s.object o (upd (s.object o)) }.goto t
          (.inside o (rest (s.object o))) := by
        rw [State.go, ht]
      have hinside : (s.go t).threads t = .inside o (rest (s.object o)) := by
        rw [hgo]
        exact Function.update_self _ _ _
      obtain ⟨ts, hrefines, hthreads⟩ := ih (s.object o) (s := s.go t) (hgo ▸ h.access ht) hinside
      refine ⟨t :: ts, hrefines, hthreads.trans ?_⟩
      rw [hgo]
      show Function.update (Function.update s.threads t _) t (.outside ((rest (s.object o)).run
        (Function.update s.object o _ o)).1) = _
      rw [Function.update_idem, Function.update_self]
      rfl

/-- With nobody in a section, `t` comes to the end of its call. -/
theorem finish_call {c : Code ω σ ρ} {plan : Plan ω α ρ} (himpl : Implements abs c plan)
    (h : Refines abs s p) (ht : s.threads t = .outside c) (hfree : ∀ o u, (s.threads u).holds o = false) :
    ∃ (ts : List ι) (p' : Planned ι ω α ρ Op), Refines abs (ts.foldl State.go s) p' ∧ (ts.foldl State.go s).threads =
      Function.update s.threads t .idle := by
  induction himpl generalizing s p with
  | ret r =>
      have hret : ∀ _ : Op, Implements abs (Code.ret r : Code ω σ ρ) (.ret r) := fun _ => .ret r
      have hstep := h.step hret (t, .go)
      have hgo : (s.go t).threads = Function.update s.threads t .idle := by
        rw [State.go, ht]
        rfl
      rcases hstep with hstep | hstep
      · exact ⟨[t], _, hstep, hgo⟩
      · exact ⟨[t], _, hstep, hgo⟩
  | lock o body upd rest hupd hrest ih =>
      have howner : s.owner o = none := by
        cases hu : s.owner o with
        | none => rfl
        | some u =>
            have hholds := (h.mutex o u).2 hu
            rw [hfree o u] at hholds
            cases hholds
      obtain ⟨plan, hplan, himplements⟩ : ∃ plan, p.threads t = some plan ∧
          Implements abs (.lock o body) plan := by
        have hstands := h.threads t
        rw [ht] at hstands
        exact hstands
      cases himplements with
      | lock _ _ upd' rest' hupd' hrest' =>
          have henter := h.enter ht howner hplan hupd' hrest'
          obtain ⟨ts, hrefines, hthreads⟩ := henter.finish_section (Function.update_self _ _ _)
          have hthreads' := hthreads.trans (Function.update_idem _ _ _)
          have hstart : s.go t = { s with owner := Function.update s.owner o (some t) }.goto t
              (.inside o body) := by
            simp only [State.go, ht, State.lock, howner]
          obtain ⟨ts', p', hdone, hidle⟩ := ih (s.object o) hrefines
            (by rw [hthreads', Function.update_self]; rfl) (fun o' u => by
              rw [hthreads']
              exact forall_update (P := fun (_ : ι) (pc : Pc ω σ ρ) => pc.holds o' = false) rfl
                (fun v _ => hfree o' v) u)
          refine ⟨t :: ts ++ ts', p', ?_, ?_⟩
          · rw [List.foldl_append, List.foldl_cons, hstart]
            exact hdone
          · rw [List.foldl_append, List.foldl_cons, hstart, hidle, hthreads', Function.update_idem]

/-- The threads of a list leave their sections, one after the other. -/
theorem settle (h : Refines abs s p) (us : List ι) :
    ∃ ts : List ι, Refines abs (ts.foldl State.go s) p ∧ ∀ u,
      (u ∈ us ∨ ∀ o, (s.threads u).holds o = false) →
        ∀ o, ((ts.foldl State.go s).threads u).holds o = false := by
  induction us generalizing s with
  | nil => exact ⟨[], h, fun u hu => hu.resolve_left List.not_mem_nil⟩
  | cons t us ih =>
      -- what `t` does first
      obtain ⟨ts, hrefines, hleft, hkept⟩ : ∃ ts : List ι, Refines abs (ts.foldl State.go s) p ∧
          (∀ o, ((ts.foldl State.go s).threads t).holds o = false) ∧
          ∀ u, (∀ o, (s.threads u).holds o = false) →
            ∀ o, ((ts.foldl State.go s).threads u).holds o = false := by
        cases ht : s.threads t with
        | idle => exact ⟨[], h, fun o => by rw [List.foldl_nil, ht]; rfl, fun _ hu => hu⟩
        | outside c => exact ⟨[], h, fun o => by rw [List.foldl_nil, ht]; rfl, fun _ hu => hu⟩
        | inside o body =>
            obtain ⟨ts, hrefines, hthreads⟩ := h.finish_section ht
            refine ⟨ts, hrefines, fun o' => ?_, fun u hu o' => ?_⟩
            · rw [hthreads, Function.update_self]
              rfl
            · rw [hthreads]
              exact forall_update (P := fun (v : ι) (pc : Pc ω σ ρ) => v = u → pc.holds o' = false)
                (fun _ => rfl) (fun v _ hv => hv ▸ hu o') u rfl
      obtain ⟨ts', hrefines', hout⟩ := ih hrefines
      refine ⟨ts ++ ts', ?_, fun u hu => ?_⟩
      · rw [List.foldl_append]
        exact hrefines'
      · rw [List.foldl_append]
        refine hout u ?_
        rcases hu with hu | hu
        · rcases List.mem_cons.1 hu with rfl | hu
          · exact .inr hleft
          · exact .inl hu
        · exact .inr (hkept u hu)

/-- The threads of a list end their calls, one after the other. -/
theorem finish (h : Refines abs s p) (hfree : ∀ o u, (s.threads u).holds o = false) (us : List ι) :
    ∃ ts : List ι, ∀ u, u ∈ us ∨ s.threads u = .idle → (ts.foldl State.go s).threads u = .idle := by
  induction us generalizing s p with
  | nil => exact ⟨[], fun u hu => hu.resolve_left List.not_mem_nil⟩
  | cons t us ih =>
      cases ht : s.threads t with
      | inside o body =>
          have hholds := holds_inside ht
          rw [hfree o t] at hholds
          cases hholds
      | idle =>
          obtain ⟨ts, hidle⟩ := ih h hfree
          refine ⟨ts, fun u hu => hidle u ?_⟩
          rcases hu with hu | hu
          · rcases List.mem_cons.1 hu with rfl | hu
            · exact .inr ht
            · exact .inl hu
          · exact .inr hu
      | outside c =>
          have hstands := h.threads t
          rw [ht] at hstands
          obtain ⟨plan, -, himpl⟩ := hstands
          obtain ⟨ts, p', hrefines, hthreads⟩ := h.finish_call himpl ht hfree
          obtain ⟨ts', hidle⟩ := ih hrefines fun o u => by
            rw [hthreads]
            exact forall_update (P := fun (_ : ι) (pc : Pc ω σ ρ) => pc.holds o = false) rfl
              (fun v _ => hfree o v) u
          refine ⟨ts ++ ts', fun u hu => ?_⟩
          rw [List.foldl_append]
          refine hidle u ?_
          rw [hthreads]
          by_cases hut : u = t
          · rw [hut, Function.update_self]
            exact .inr rfl
          · rw [Function.update_of_ne hut]
            exact hu.imp_left fun hmem => (List.mem_cons.1 hmem).resolve_left hut

end Refines

/-- With a debt of `n` the plan can be followed to the end: each step pays for what it makes the object
`o` lose in worth, and at the end there is enough for the gain. -/
inductive Plan.Pays (o : ω) (worth : α → Int) (gain : ρ → Nat) : Nat → Plan ω α ρ → Prop
  | ret (n : Nat) (r : ρ) (hgain : gain r ≤ n) : Pays o worth gain n (.ret r)
  | own (n : Nat) (upd : α → α) (rest : α → Plan ω α ρ) (need : α → Nat)
      (hrest : ∀ a, Pays o worth gain (need a) (rest a))
      (hworth : ∀ a, (need a : Int) + worth a ≤ n + worth (upd a)) : Pays o worth gain n (.perform o upd rest)
  | other (n : Nat) (o' : ω) (upd : α → α) (rest : α → Plan ω α ρ) (hne : o' ≠ o)
      (hrest : ∀ a, Pays o worth gain n (rest a)) : Pays o worth gain n (.perform o' upd rest)

/-- What has been given back. -/
def Event.gain (gain : ρ → Nat) : Event ι Op ρ → Nat
  | .ret _ r => gain r
  | .call _ _ => 0

/-- What has been called. -/
def Event.cost (cost : Op → Nat) : Event ι Op ρ → Nat
  | .call _ op => cost op
  | .ret _ _ => 0

def total (f : Event ι Op ρ → Nat) : List (Event ι Op ρ) → Nat
  | [] => 0
  | e :: es => f e + total f es

omit [DecidableEq ω] [DecidableEq ι] in
theorem total_append (f : Event ι Op ρ → Nat) (es es' : List (Event ι Op ρ)) :
    total f (es ++ es') = total f es + total f es' := by
  induction es with
  | nil => exact (Nat.zero_add _).symm
  | cons e es ih => rw [List.cons_append, total, total, ih, Nat.add_assoc]

section Accounts

variable [Fintype ι] {worth : α → Int} {gain : ρ → Nat} {cost : Op → Nat} {plan : Op → Plan ω α ρ}

/-- What is still to be paid, thread by thread. -/
structure Settled (o : ω) (worth : α → Int) (start : Int) (gain : ρ → Nat) (cost : Op → Nat)
    (need : ι → Nat) (p : Planned ι ω α ρ Op) : Prop where
  pays : ∀ t plan, p.threads t = some plan → plan.Pays o worth gain (need t)
  le : (total (Event.gain gain) p.history : Int) + ∑ t, need t + start ≤
    worth (p.object o) + total (Event.cost cost) p.history

variable {start : Int} {p : Planned ι ω α ρ Op} {need : ι → Nat}

omit [DecidableEq ω] in
theorem Settled.move {p' : Planned ι ω α ρ Op} {next : Option (Plan ω α ρ)} {n : Nat}
    (h : Settled o worth start gain cost need p) (hthreads : p'.threads = Function.update p.threads t next)
    (hpays : ∀ plan, next = some plan → plan.Pays o worth gain n)
    (hle : (total (Event.gain gain) p'.history : Int) + n + worth (p.object o) +
        total (Event.cost cost) p.history ≤
      total (Event.gain gain) p.history + need t + worth (p'.object o) +
        total (Event.cost cost) p'.history) :
    Settled o worth start gain cost (Function.update need t n) p' where
  pays u plan hu := by
    rw [hthreads] at hu
    by_cases hut : u = t
    · rw [hut, Function.update_self] at hu ⊢
      exact hpays plan hu
    · rw [Function.update_of_ne hut] at hu ⊢
      exact h.pays u plan hu
  le := by
    have hsum := sum_update id need t n
    have hbefore := h.le
    simp only [id] at hsum
    omega

theorem Settled.step (hplan : ∀ op, (plan op).Pays o worth gain (cost op))
    (h : Settled o worth start gain cost need p) (a : ι × Act Op) :
    ∃ need', Settled o worth start gain cost need' (p.step plan a) := by
  obtain ⟨t, a⟩ := a
  cases a with
  | call op =>
      cases ht : p.threads t with
      | some plan =>
          refine ⟨need, ?_⟩
          simp only [Planned.step, ht]
          exact h
      | none =>
          refine ⟨Function.update need t (cost op), ?_⟩
          simp only [Planned.step, ht]
          refine h.move rfl (fun plan hnext => Option.some.inj hnext ▸ hplan op) ?_
          show (total _ (p.history ++ [Event.call t op]) : Int) + _ + worth (p.object o) + _ ≤
            _ + _ + worth (p.object o) + total _ (p.history ++ [Event.call t op])
          rw [total_append, total_append]
          simp only [total, Event.gain, Event.cost]
          omega
  | go =>
      show ∃ need', Settled o worth start gain cost need' (p.go t)
      cases ht : p.threads t with
      | none =>
          refine ⟨need, ?_⟩
          rw [Planned.go, ht]
          exact h
      | some plan =>
          have hpays := h.pays t plan ht
          rw [Planned.go, ht]
          generalize hn : need t = n at hpays
          cases hpays with
          | ret _ r hgain =>
              refine ⟨Function.update need t 0, h.move rfl (fun _ hnext => by cases hnext) ?_⟩
              show (total _ (p.history ++ [Event.ret t r]) : Int) + _ + worth (p.object o) + _ ≤
                _ + _ + worth (p.object o) + total _ (p.history ++ [Event.ret t r])
              rw [total_append, total_append]
              simp only [total, Event.gain, Event.cost]
              omega
          | own _ upd rest next hrest hworth =>
              refine ⟨Function.update need t (next (p.object o)),
                h.move rfl (fun _ hnext => Option.some.inj hnext ▸ hrest _) ?_⟩
              have hpaid := hworth (p.object o)
              show _ + _ + _ + _ ≤ _ + _ + worth (Function.update p.object o _ o) + _
              rw [Function.update_self]
              show (total (Event.gain gain) p.history : Int) + _ + _ + total (Event.cost cost) p.history ≤
                total (Event.gain gain) p.history + _ + _ + total (Event.cost cost) p.history
              omega
          | other _ o' upd rest hne hrest =>
              refine ⟨Function.update need t n,
                h.move rfl (fun _ hnext => Option.some.inj hnext ▸ hrest _) ?_⟩
              show _ + _ + _ + _ ≤ _ + _ + worth (Function.update p.object o' _ o) + _
              rw [Function.update_of_ne hne.symm]
              show (total (Event.gain gain) p.history : Int) + _ + _ + total (Event.cost cost) p.history ≤
                total (Event.gain gain) p.history + _ + _ + total (Event.cost cost) p.history
              omega

/-- What has been given back is not more than what the object has become worth and the calls have
cost. -/
theorem gains_le (hplan : ∀ op, (plan op).Pays o worth gain (cost op)) (object : ω → α)
    (as : List (ι × Act Op)) :
    (total (Event.gain gain) ((Planned.new object).run plan as).history : Int) + worth (object o) ≤
      worth (((Planned.new object).run plan as).object o) +
        total (Event.cost cost) ((Planned.new object).run plan as).history := by
  have hrun : ∀ (as : List (ι × Act Op)) (p : Planned ι ω α ρ Op) (need : ι → Nat),
      Settled o worth (worth (object o)) gain cost need p →
        ∃ need', Settled o worth (worth (object o)) gain cost need' (p.run plan as) := by
    intro as
    induction as with
    | nil => exact fun p need h => ⟨need, h⟩
    | cons a as ih =>
        intro p need h
        obtain ⟨need', h'⟩ := h.step hplan a
        exact ih _ need' h'
  have hnew : Settled o worth (worth (object o)) gain cost (fun _ => 0)
      (Planned.new object : Planned ι ω α ρ Op) := by
    refine ⟨(fun t plan ht => by cases ht), ?_⟩
    rw [Finset.sum_const_zero]
    show ((0 : Nat) : Int) + _ + worth (object o) ≤ worth (object o) + (0 : Nat)
    omega
  obtain ⟨need, h⟩ := hrun as _ _ hnew
  have hle := h.le
  omega

end Accounts

end

end Monitor
