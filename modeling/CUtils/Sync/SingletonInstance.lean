import CUtils.Sync.Singleton

/-!
# One instance

What the threads get of the slot says how many objects are constructed (`constructed_le`). Once an
instance is there and nobody is about to clear it, no thread constructs another one: that every call
then gets this instance (`same_instance`) is an invariant of the steps.
-/

namespace CUtils.Singletons

open Monitor Threads

variable {ι : Type} [DecidableEq ι]

/-! ## How many objects are constructed -/

def Op.destroys : Op → Nat
  | .getInstance _ => 0
  | .destroyInstance => 1

/-- An object in the slot has been paid for by nobody yet. -/
def Slot.worth (a : Slot) : Int := (if a.instance_.isSome then 1 else 0) - a.made

/-- What a thread is at: a call of its own, or a result that is null only if the call found no
memory. -/
def Told (history : List (Event ι Op Result)) (t : ι) (next : Plan Unit Slot Result) : Prop :=
  (∃ op, next = plan op ∧ Event.call t op ∈ history) ∨
    ∃ r, next = .ret r ∧ (r = .pointer none → Event.call t (.getInstance false) ∈ history)

structure Honest (p : Planned ι Unit Slot Result Op) : Prop where
  threads : ∀ t next, p.threads t = some next → Told p.history t next
  history : ∀ t, Event.ret t (.pointer none) ∈ p.history →
    Event.call t (.getInstance false) ∈ p.history

omit [DecidableEq ι] in
theorem Told.append {history : List (Event ι Op Result)} {t : ι} {next : Plan Unit Slot Result}
    (h : Told history t next) (es : List (Event ι Op Result)) : Told (history ++ es) t next := by
  rcases h with ⟨op, hop, hmem⟩ | ⟨r, hr, hnull⟩
  · exact .inl ⟨op, hop, List.mem_append_left _ hmem⟩
  · exact .inr ⟨r, hr, fun hnone => List.mem_append_left _ (hnull hnone)⟩

theorem Honest.move {p p' : Planned ι Unit Slot Result Op} {t : ι}
    {next : Option (Plan Unit Slot Result)} {es : List (Event ι Op Result)} (h : Honest p)
    (hthreads : p'.threads = Function.update p.threads t next)
    (hhistory : p'.history = p.history ++ es)
    (hnext : ∀ plan, next = some plan → Told p'.history t plan)
    (hes : ∀ u, Event.ret u (.pointer none) ∈ es → Event.call u (.getInstance false) ∈ p.history) :
    Honest p' := by
  refine ⟨fun u plan hu => ?_, fun u hu => ?_⟩
  · rw [hthreads] at hu
    by_cases hut : u = t
    · rw [hut, Function.update_self] at hu
      rw [hut]
      exact hnext plan hu
    · rw [Function.update_of_ne hut] at hu
      rw [hhistory]
      exact (h.threads u plan hu).append es
  · rw [hhistory] at hu ⊢
    apply List.mem_append_left
    rcases List.mem_append.1 hu with hu | hu
    · exact h.history u hu
    · exact hes u hu

theorem Slot.apply_null {op : Op} {a : Slot} (h : (Slot.apply op a).1 = .pointer none) :
    op = .getInstance false := by
  cases op with
  | destroyInstance => cases h
  | getInstance room =>
      cases hinst : a.instance_ with
      | some n =>
          simp only [Slot.apply, Slot.getInstance, hinst] at h
          cases h
      | none =>
          cases room with
          | true =>
              simp only [Slot.apply, Slot.getInstance, hinst, if_true] at h
              cases h
          | false => rfl

theorem Honest.step {p : Planned ι Unit Slot Result Op} (h : Honest p) (a : ι × Act Op) :
    Honest (p.step plan a) := by
  obtain ⟨t, a⟩ := a
  cases a with
  | call op =>
      cases ht : p.threads t with
      | some next =>
          simp only [Planned.step, ht]
          exact h
      | none =>
          simp only [Planned.step, ht]
          refine h.move rfl rfl (fun next hnext => .inl ⟨op, (Option.some.inj hnext).symm, ?_⟩)
            fun u hu => ?_
          · exact List.mem_append_right _ (List.mem_singleton.2 rfl)
          · cases List.mem_singleton.1 hu
  | go =>
      show Honest (p.go t)
      cases ht : p.threads t with
      | none =>
          rw [Planned.go, ht]
          exact h
      | some next =>
          rcases h.threads t next ht with ⟨op, rfl, hcall⟩ | ⟨r, rfl, hnull⟩
          · obtain ⟨-, hthreads, hhistory⟩ := Refines.go_plan ht
            have hsame : (p.go t).history = p.history ++ [] := by rw [hhistory, List.append_nil]
            refine h.move hthreads hsame
              (fun next hnext => .inr ⟨_, (Option.some.inj hnext).symm, fun hnone => ?_⟩)
              fun u hu => absurd hu List.not_mem_nil
            rw [hhistory, ← Slot.apply_null hnone]
            exact hcall
          · rw [Planned.go, ht]
            refine h.move rfl rfl (fun _ hnext => by cases hnext) fun u hu => ?_
            obtain ⟨rfl, rfl⟩ := Event.ret.inj (List.mem_singleton.1 hu)
            exact hnull rfl

theorem Honest.run {p : Planned ι Unit Slot Result Op} (h : Honest p) (bs : List (ι × Act Op)) :
    Honest (p.run plan bs) := by
  induction bs generalizing p with
  | nil => exact h
  | cons a bs ih => exact ih (h.step a)

/-- `DestroyInstance` has been called and has not cleared `instance_` yet. -/
def Pc.clears : Pc → Bool
  | .lockDestroy | .destroy => true
  | _ => false

/-- A thread at its result is to return the object `n`. -/
def Pc.Gets (n : Nat) : Pc → Prop
  | .unlock r | .ret r => r = .pointer (some n)
  | _ => True

def Called (h : List (Event ι Op Result)) (t : ι) : Prop := ∃ op, Event.call t op ∈ h

/-- Who calls and then gets something back, gets the object `n`. -/
def AllGet (n : Nat) (h : List (Event ι Op Result)) : Prop :=
  ∀ h₁ t r h₂, h = h₁ ++ Event.ret t r :: h₂ → Called h₁ t → r = .pointer (some n)

omit [DecidableEq ι] in
theorem AllGet.append {n : Nat} {h : List (Event ι Op Result)} (hall : AllGet n h)
    {e : Event ι Op Result} (he : ∀ t r, e = .ret t r → Called h t → r = .pointer (some n)) :
    AllGet n (h ++ [e]) := by
  intro h₁ t r h₂ hsplit hcalled
  rcases h₂.eq_nil_or_concat with rfl | ⟨h₃, x, rfl⟩
  · obtain ⟨rfl, hlast⟩ := List.append_inj' hsplit rfl
    exact he t r (List.singleton_inj.1 hlast) hcalled
  · have hsplit' : h ++ [e] = (h₁ ++ Event.ret t r :: h₃) ++ [x] := by
      rw [hsplit, List.append_assoc, List.cons_append, List.concat_eq_append]
    obtain ⟨rfl, -⟩ := List.append_inj' hsplit' rfl
    exact hall h₁ t r h₃ rfl hcalled

/-- Since the history was `start`, the instance has been `n`. -/
structure Present (n : Nat) (start : List (Event ι Op Result)) (s : State ι) : Prop where
  inst : s.instance_ = some n
  kept : ∀ t, (s.threads t).clears = false
  refines : ∃ p, Refines s p
  history : ∃ h, s.history = start ++ h ∧ (∀ t, Called h t → (s.threads t).Gets n) ∧ AllGet n h

omit [DecidableEq ι] in
/-- Nobody constructs an object. -/
theorem Present.no_store {n : Nat} {start : List (Event ι Op Result)} {s : State ι}
    (h : Present n start s) (t : ι) (room : Bool) (temp : Ptr) :
    s.threads t ≠ .construct room ∧ s.threads t ≠ .store temp := by
  obtain ⟨p, hp⟩ := h.refines
  have hinst := h.inst
  constructor
  · intro ht
    have hstands := hp.threads t
    rw [ht] at hstands
    rw [hstands.2] at hinst
    cases hinst
  · intro ht
    have hstands := hp.threads t
    rw [ht] at hstands
    rw [hstands.2.2] at hinst
    cases hinst

/-- A thread goes on inside its call. -/
theorem Present.move {n : Nat} {start : List (Event ι Op Result)} {s s' : State ι} {t : ι} {pc : Pc}
    (h : Present n start s) (hthreads : s'.threads = Function.update s.threads t pc)
    (hinst : s'.instance_ = s.instance_) (hhistory : s'.history = s.history)
    (hrefines : ∃ p, Refines s' p) (hkept : pc.clears = false)
    (hgets : (s.threads t).Gets n → pc.Gets n) : Present n start s' := by
  obtain ⟨e, he, hpcs, hall⟩ := h.history
  refine ⟨hinst.trans h.inst, ?_, hrefines, e, hhistory.trans he, fun u hu => ?_, hall⟩
  · rw [hthreads]
    exact forall_update (P := fun _ pc => Pc.clears pc = false) hkept fun u _ => h.kept u
  · rw [hthreads]
    by_cases hut : u = t
    · rw [hut] at hu ⊢
      rw [Function.update_self]
      exact hgets (hpcs t hu)
    · rw [Function.update_of_ne hut]
      exact hpcs u hu

/-- A thread starts a call or ends one. -/
theorem Present.record {n : Nat} {start : List (Event ι Op Result)} {s s' : State ι} {t : ι} {pc : Pc}
    {e : Event ι Op Result} (h : Present n start s)
    (hthreads : s'.threads = Function.update s.threads t pc)
    (hinst : s'.instance_ = s.instance_) (hhistory : s'.history = s.history ++ [e])
    (hrefines : ∃ p, Refines s' p) (hkept : pc.clears = false) (hgets : pc.Gets n)
    (hcall : ∀ u op, e = .call u op → u = t)
    (hret : ∀ u r, e = .ret u r → u = t ∧ s.threads t = .ret r) : Present n start s' := by
  obtain ⟨h', hh', hpcs, hall⟩ := h.history
  refine ⟨hinst.trans h.inst, ?_, hrefines, h' ++ [e], ?_, fun u hu => ?_, hall.append ?_⟩
  · rw [hthreads]
    exact forall_update (P := fun _ pc => Pc.clears pc = false) hkept fun u _ => h.kept u
  · rw [hhistory, hh', List.append_assoc]
  · rw [hthreads]
    by_cases hut : u = t
    · rw [hut, Function.update_self]
      exact hgets
    · rw [Function.update_of_ne hut]
      obtain ⟨op, hop⟩ := hu
      rcases List.mem_append.1 hop with hop | hop
      · exact hpcs u ⟨op, hop⟩
      · exact absurd (hcall u op (List.mem_singleton.1 hop).symm) hut
  · intro u r heq hcalled
    obtain ⟨rfl, hr⟩ := hret u r heq
    have hget := hpcs u hcalled
    rw [hr] at hget
    exact hget

theorem Refines.exists_step {s : State ι} (h : ∃ p, Refines s p) (a : ι × Act Op) :
    ∃ p, Refines (s.step a) p := by
  obtain ⟨p, hp⟩ := h
  rcases hp.step a with hstep | hstep
  · exact ⟨p, hstep⟩
  · exact ⟨_, hstep⟩

theorem Present.step {n : Nat} {start : List (Event ι Op Result)} {s : State ι}
    (h : Present n start s) {a : ι × Act Op} (ha : a.2 ≠ .call .destroyInstance) :
    Present n start (s.step a) := by
  have hrefines := Refines.exists_step h.refines a
  obtain ⟨t, a⟩ := a
  cases a with
  | call op =>
      cases ht : s.threads t with
      | idle =>
          cases op with
          | destroyInstance => exact absurd rfl ha
          | getInstance room =>
              simp only [State.step, ht] at hrefines ⊢
              refine h.record rfl rfl rfl hrefines rfl trivial (fun u op heq => ?_) fun u r heq => ?_
              · exact (Event.call.inj heq).1.symm
              · cases heq
      | load | lock | check | construct | store | loadResult | lockDestroy | destroy | unlock | ret =>
          simp only [State.step, ht]
          exact h
  | go =>
      have hno := h.no_store t
      have hkept := h.kept t
      have hinst := h.inst
      show Present n start (s.go t)
      have hrefines' : ∃ p, Refines (s.go t) p := hrefines
      rw [State.go] at hrefines' ⊢
      cases ht : s.threads t with
      | idle => exact h
      | load room =>
          simp only [ht, hinst] at hrefines' ⊢
          exact h.move rfl rfl rfl hrefines' rfl fun _ => rfl
      | lock room =>
          cases hfree : s.mutex with
          | none =>
              simp only [ht, State.lock, hfree] at hrefines' ⊢
              exact h.move rfl rfl rfl hrefines' rfl fun _ => trivial
          | some u =>
              simp only [State.lock, hfree]
              exact h
      | check room =>
          simp only [ht, hinst] at hrefines' ⊢
          exact h.move rfl rfl rfl hrefines' rfl fun _ => trivial
      | construct room => exact absurd ht (hno room none).1
      | store temp => exact absurd ht (hno true temp).2
      | loadResult =>
          simp only [ht] at hrefines' ⊢
          refine h.move rfl rfl rfl hrefines' rfl fun _ => ?_
          show Result.pointer s.instance_ = _
          rw [hinst]
      | lockDestroy | destroy =>
          rw [ht] at hkept
          cases hkept
      | unlock r =>
          simp only [ht] at hrefines' ⊢
          refine h.move rfl rfl rfl hrefines' rfl fun hgets => ?_
          rw [ht] at hgets
          exact hgets
      | ret r =>
          simp only [ht] at hrefines' ⊢
          refine h.record rfl rfl rfl hrefines' rfl trivial (fun u op heq => ?_) fun u r' heq => ?_
          · cases heq
          · obtain ⟨rfl, rfl⟩ := Event.ret.inj heq
            exact ⟨rfl, ht⟩

/-- **Everybody gets the same object.** From when there is an instance and no call of
`DestroyInstance` is under way, as long as nobody calls it, every call of `GetInstance` gives back
that instance. -/
theorem same_instance (as bs : List (ι × Act Op)) (n : Nat)
    (hinst : (State.new.run as).instance_ = some n)
    (hkept : ∀ t, ((State.new.run as).threads t).clears = false)
    (hbs : ∀ b ∈ bs, b.2 ≠ .call .destroyInstance) :
    ((State.new.run as).run bs).instance_ = some n ∧
      ∃ h, ((State.new.run as).run bs).history = (State.new.run as).history ++ h ∧
        AllGet n h := by
  obtain ⟨ps, hp⟩ := (Refines.new (ι := ι)).run as
  have hnew : Present n (State.new.run as).history (State.new.run as) := by
    refine ⟨hinst, hkept, ⟨_, hp⟩, [], (List.append_nil _).symm, fun t ht => ?_, ?_⟩
    · obtain ⟨op, hop⟩ := ht
      exact absurd hop List.not_mem_nil
    · intro h₁ t r h₂ hsplit
      exact absurd hsplit.symm (List.append_ne_nil_of_right_ne_nil _ (List.cons_ne_nil _ _))
  have hrun : ∀ (bs : List (ι × Act Op)) (s : State ι), (∀ b ∈ bs, b.2 ≠ .call .destroyInstance) →
      Present n (State.new.run as).history s → Present n (State.new.run as).history (s.run bs) := by
    intro bs
    induction bs with
    | nil => exact fun s _ h => h
    | cons b bs ih =>
        intro s hbs h
        rw [List.forall_mem_cons] at hbs
        exact ih _ hbs.2 (h.step hbs.1)
  have h := hrun bs _ hbs hnew
  obtain ⟨h', hh', -, hall⟩ := h.history
  exact ⟨h.inst, h', hh', hall⟩

/-- Two threads have found no instance, and one of them has stored one. -/
def racing : List (Bool × Act Op) :=
  [(true, .call (.getInstance true)), (false, .call (.getInstance true)), (true, .go), (false, .go),
    (true, .go), (true, .go), (true, .go), (true, .go)]

/-- Both come to their results, and one of them calls again. -/
def settling : List (Bool × Act Op) :=
  [(true, .go), (true, .go), (false, .go), (true, .go), (false, .go), (false, .go), (false, .go),
    (false, .go), (true, .call (.getInstance true)), (true, .go), (true, .go), (false, .go)]

theorem same_instance_racing : ((State.new.run racing).run settling).instance_ = some 0 ∧
    ∃ h, ((State.new.run racing).run settling).history = (State.new.run racing).history ++ h ∧
      AllGet 0 h :=
  same_instance racing settling 0 (by decide) (by decide) (by simp [settling])

end CUtils.Singletons
