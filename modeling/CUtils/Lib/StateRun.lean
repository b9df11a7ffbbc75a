import Mathlib.Order.Defs.Unbundled

/-!
# Reasoning about state-passing programs

`Prog σ α` is a program over a state `σ`. Three notions carry the proofs built on this file.

* `Tracks R m` — whatever state `m` starts in, the state it leaves is `R`-related to it. With
  `R` a preorder, `Tracks` passes through `bind`, branches and loops, so it has to be checked
  for the primitive operations only. An invariant `I` is the case `Keeps I`.
* `Coupled R Q m m'` — run from `R`-related states, the two programs return the same result and
  leave states that `Q` relates. This is how two runs are compared.
* `Along C step s is` — the run of the inputs `is` from `s` meets the condition `C` at every
  step. `Along.invariant` is the induction that turns a step lemma into a run lemma.
-/

namespace StateRun

universe u

variable {σ α β : Type} {ι : Type u}

/-- A program over the state `σ` with results in `α`. It is a structure rather than a function
type, so that a program and its run are different things to the elaborator. -/
structure Prog (σ α : Type) where
  run : σ → α × σ

instance : Monad (Prog σ) where
  pure a := ⟨fun s => (a, s)⟩
  bind m f := ⟨fun s => (f (m.run s).1).run (m.run s).2⟩

instance : MonadStateOf σ (Prog σ) where
  get := ⟨fun s => (s, s)⟩
  set s' := ⟨fun _ => (⟨⟩, s')⟩
  modifyGet f := ⟨f⟩

instance : LawfulMonad (Prog σ) :=
  LawfulMonad.mk' _ (fun _ => rfl) (fun _ _ => rfl) (fun _ _ _ => rfl)

/-! ## Equations -/

/-- Programs that run alike are the same. -/
theorem Prog.ext {m k : Prog σ α} (h : ∀ s, m.run s = k.run s) : m = k :=
  congrArg Prog.mk (funext h)

@[simp] theorem run_pure (a : α) (s : σ) : (pure a : Prog σ α).run s = (a, s) := rfl

@[simp] theorem run_bind (m : Prog σ α) (f : α → Prog σ β) (s : σ) :
    (m >>= f).run s = (f (m.run s).1).run (m.run s).2 := rfl

@[simp] theorem run_map (f : α → β) (m : Prog σ α) (s : σ) :
    (f <$> m).run s = (f (m.run s).1, (m.run s).2) := rfl

@[simp] theorem run_get (s : σ) : (get : Prog σ σ).run s = (s, s) := rfl

@[simp] theorem run_set (s' s : σ) : (set s' : Prog σ PUnit).run s = (⟨⟩, s') := rfl

@[simp] theorem run_modify (f : σ → σ) (s : σ) :
    (modify f : Prog σ PUnit).run s = (⟨⟩, f s) := rfl

@[simp] theorem run_ite (c : Prop) [Decidable c] (m m' : Prog σ α) (s : σ) :
    (if c then m else m').run s = if c then m.run s else m'.run s := by
  split <;> rfl

/-- A test of a result that ends the program: `if (!m()) return b;`. -/
theorem run_unless (m : Prog σ Bool) (b : β) (k : Prog σ β) (s : σ) :
    (m >>= fun ok => if (!ok) = true then pure b else k).run s =
      if (m.run s).1 = true then k.run (m.run s).2 else (b, (m.run s).2) := by
  rw [run_bind]
  cases (m.run s).1 <;> rfl

/-- `m && k`: `k` runs only when `m` returns `true`. -/
def Prog.andThen (m k : Prog σ Bool) : Prog σ Bool := do
  if ← m then k else return false

theorem run_andThen (m k : Prog σ Bool) (s : σ) :
    (m.andThen k).run s =
      if (m.run s).1 = true then k.run (m.run s).2 else (false, (m.run s).2) := by
  rw [Prog.andThen, run_bind, run_ite, run_pure]

/-- `if (!m()) return false;` followed by `k`. -/
theorem unless_eq_andThen (m k : Prog σ Bool) :
    (m >>= fun ok => if (!ok) = true then pure false else k) = m.andThen k := by
  rw [Prog.andThen]
  congr 1
  funext ok
  cases ok <;> rfl

theorem Prog.andThen_assoc (m k l : Prog σ Bool) :
    (m.andThen k).andThen l = m.andThen (k.andThen l) := by
  unfold Prog.andThen
  rw [bind_assoc]
  congr 1
  funext ok
  cases ok <;> rfl

theorem Prog.andThen_pure_true (m : Prog σ Bool) : m.andThen (pure true) = m := by
  have hid : (fun ok : Bool => if ok = true then (Pure.pure true : Prog σ Bool) else Pure.pure false)
      = Pure.pure := by
    funext ok
    cases ok <;> rfl
  rw [Prog.andThen, hid, bind_pure]

theorem Prog.false_andThen (k : Prog σ Bool) : (Pure.pure false : Prog σ Bool).andThen k = Pure.pure false :=
  rfl

theorem Prog.ite_andThen (c : Prop) [Decidable c] (m m' k : Prog σ Bool) :
    (if c then m else m').andThen k = if c then m.andThen k else m'.andThen k := by
  split <;> rfl

/-- `m && k` has succeeded. -/
theorem andThen_true {m k : Prog σ Bool} {s : σ} (h : ((m.andThen k).run s).1 = true) :
    (m.run s).1 = true ∧ (k.run (m.run s).2).1 = true ∧
      ((m.andThen k).run s).2 = (k.run (m.run s).2).2 := by
  rw [run_andThen] at h ⊢
  by_cases hm : (m.run s).1 = true
  · rw [if_pos hm] at h ⊢
    exact ⟨hm, h, rfl⟩
  · rw [if_neg hm] at h
    cases h

/-! ## Relations that programs respect -/

/-- Every run of `m` leaves a state `R`-related to the one it started in. -/
def Tracks (R : σ → σ → Prop) (m : Prog σ α) : Prop := ∀ s, R s (m.run s).2

/-- The relation "if `I` held before, it holds after". -/
def Kept (I : σ → Prop) (s s' : σ) : Prop := I s → I s'

instance (I : σ → Prop) : IsPreorder σ (Kept I) where
  refl _ h := h
  trans _ _ _ h h' hI := h' (h hI)

/-- `I` is an invariant of `m`. -/
abbrev Keeps (I : σ → Prop) (m : Prog σ α) : Prop := Tracks (Kept I) m

theorem Tracks.mono {R R' : σ → σ → Prop} (h : ∀ s s', R s s' → R' s s') {m : Prog σ α}
    (hm : Tracks R m) : Tracks R' m := fun s => h _ _ (hm s)

/-- Reading the state first: the continuation only has to behave on the state it was given. -/
theorem Tracks.get_bind {R : σ → σ → Prop} {f : σ → Prog σ β} (hf : ∀ s, R s ((f s).run s).2) :
    Tracks R (get >>= f) := fun s => hf s

theorem Tracks.ite {R : σ → σ → Prop} {c : Prop} [Decidable c] {m m' : Prog σ α} (hm : c → Tracks R m)
    (hm' : ¬ c → Tracks R m') : Tracks R (if c then m else m') := by
  by_cases hc : c
  · rw [if_pos hc]; exact hm hc
  · rw [if_neg hc]; exact hm' hc

section Preorder

variable {R : σ → σ → Prop} [IsPreorder σ R]

theorem Tracks.pure (a : α) : Tracks R (Pure.pure a : Prog σ α) := fun s => refl_of R s

theorem Tracks.bind {m : Prog σ α} {f : α → Prog σ β} (hm : Tracks R m)
    (hf : ∀ a, Tracks R (f a)) : Tracks R (m >>= f) :=
  fun s => trans_of R (hm s) (hf _ _)

theorem Tracks.andThen {m k : Prog σ Bool} (hm : Tracks R m) (hk : Tracks R k) :
    Tracks R (m.andThen k) :=
  Tracks.bind hm fun _ => Tracks.ite (fun _ => hk) fun _ => Tracks.pure false

/-- A loop that stops at the first `false` respects what its body respects. -/
theorem Tracks.allM {f : α → Prog σ Bool} (hf : ∀ a, Tracks R (f a)) (l : List α) :
    Tracks R (l.allM f) := by
  induction l with
  | nil => exact Tracks.pure true
  | cons a as ih =>
      rw [List.allM]
      refine Tracks.bind (hf a) fun b => ?_
      cases b with
      | true => exact ih
      | false => exact Tracks.pure false

theorem Tracks.mapM {f : α → Prog σ β} (hf : ∀ a, Tracks R (f a)) (l : List α) :
    Tracks R (l.mapM f) := by
  induction l with
  | nil => exact Tracks.pure []
  | cons a as ih =>
      rw [List.mapM_cons]
      exact Tracks.bind (hf a) fun _ => Tracks.bind ih fun _ => Tracks.pure _

end Preorder

/-! ## Two runs side by side -/

/-- From states related by `R`, the two programs return the same result, and leave states related
by the `Q` of that result. -/
def Coupled (R : σ → σ → Prop) (Q : α → σ → σ → Prop) (m m' : Prog σ α) : Prop :=
  ∀ s t, R s t → (m.run s).1 = (m'.run t).1 ∧ Q (m.run s).1 (m.run s).2 (m'.run t).2

/-- The programs keep `R` and return the same result. -/
abbrev Couples (R : σ → σ → Prop) (m m' : Prog σ α) : Prop := Coupled R (fun _ => R) m m'

section Coupled

variable {R : σ → σ → Prop} {Q : α → σ → σ → Prop} {S : β → σ → σ → Prop}

theorem Coupled.pure {a : α} (h : ∀ s t, R s t → Q a s t) :
    Coupled R Q (Pure.pure a) (Pure.pure a) := fun s t hR => ⟨rfl, h s t hR⟩

theorem Couples.pure (a : α) : Couples R (Pure.pure a) (Pure.pure a) :=
  Coupled.pure fun _ _ hR => hR

theorem Coupled.bind {m m' : Prog σ α} {f f' : α → Prog σ β} (hm : Coupled R Q m m')
    (hf : ∀ a, Coupled (Q a) S (f a) (f' a)) : Coupled R S (m >>= f) (m' >>= f') := by
  intro s t hR
  obtain ⟨heq, hQ⟩ := hm s t hR
  rw [run_bind, run_bind, ← heq]
  exact hf _ _ _ hQ

/-- Reading the state first: the continuations only have to behave on the states they were
given. -/
theorem Coupled.get_bind {f f' : σ → Prog σ α}
    (h : ∀ s t, R s t → ((f s).run s).1 = ((f' t).run t).1 ∧
      Q ((f s).run s).1 ((f s).run s).2 ((f' t).run t).2) :
    Coupled R Q (get >>= f) (get >>= f') := fun s t hR => h s t hR

theorem Coupled.map {m m' : Prog σ α} (f : α → β) (hm : Coupled R Q m m')
    (hS : ∀ a s t, Q a s t → S (f a) s t) : Coupled R S (f <$> m) (f <$> m') := by
  intro s t hR
  obtain ⟨heq, hQ⟩ := hm s t hR
  exact ⟨congrArg f heq, hS _ _ _ hQ⟩

theorem Coupled.mono {R' : σ → σ → Prop} {Q' : α → σ → σ → Prop} {m m' : Prog σ α}
    (hm : Coupled R Q m m') (hR : ∀ s t, R' s t → R s t) (hQ : ∀ a s t, Q a s t → Q' a s t) :
    Coupled R' Q' m m' := by
  intro s t h
  obtain ⟨heq, h'⟩ := hm s t (hR s t h)
  exact ⟨heq, hQ _ _ _ h'⟩

theorem Coupled.ite {c : Prop} [Decidable c] {m m' n n' : Prog σ α} (hm : c → Coupled R Q m m')
    (hn : ¬ c → Coupled R Q n n') :
    Coupled R Q (if c then m else n) (if c then m' else n') := by
  by_cases hc : c
  · rw [if_pos hc, if_pos hc]
    exact hm hc
  · rw [if_neg hc, if_neg hc]
    exact hn hc

/-- `if (!m()) return false;` followed by `k`. -/
theorem Coupled.andThen {m m' k k' : Prog σ Bool} {Q S : Bool → σ → σ → Prop}
    (hm : Coupled R Q m m') (hk : Coupled (Q true) S k k') (hS : ∀ s t, Q false s t → S false s t) :
    Coupled R S (m.andThen k) (m'.andThen k') := by
  refine Coupled.bind hm fun ok => ?_
  cases ok with
  | true => exact hk
  | false => exact Coupled.pure hS

theorem Couples.allM {f f' : α → Prog σ Bool} (hf : ∀ a, Couples R (f a) (f' a)) (l : List α) :
    Couples R (l.allM f) (l.allM f') := by
  induction l with
  | nil => exact Couples.pure true
  | cons a as ih =>
      rw [List.allM, List.allM]
      refine Coupled.bind (hf a) fun b => ?_
      cases b with
      | true => exact ih
      | false => exact Couples.pure false

theorem Couples.mapM {f f' : α → Prog σ β} {l : List α} (hf : ∀ a ∈ l, Couples R (f a) (f' a)) :
    Couples R (l.mapM f) (l.mapM f') := by
  induction l with
  | nil => exact Couples.pure []
  | cons a as ih =>
      rw [List.mapM_cons, List.mapM_cons]
      refine Coupled.bind (hf a (by simp)) fun _ => ?_
      exact Coupled.bind (ih fun b hb => hf b (by simp [hb])) fun _ => Couples.pure _

end Coupled

/-! ## Loops that stop at the first `false` -/

theorem allM_nil (f : α → Prog σ Bool) : List.allM f [] = pure true := rfl

theorem allM_cons (f : α → Prog σ Bool) (a : α) (as : List α) :
    (a :: as).allM f = (f a).andThen (as.allM f) := by
  rw [List.allM, Prog.andThen]
  congr 1
  funext ok
  cases ok <;> rfl

theorem allM_map (f : β → Prog σ Bool) (g : α → β) (l : List α) :
    (l.map g).allM f = l.allM fun a => f (g a) := by
  induction l with
  | nil => rfl
  | cons a as ih => rw [List.map_cons, allM_cons, ih, allM_cons]

theorem allM_append (f : α → Prog σ Bool) (l l' : List α) :
    (l ++ l').allM f = (l.allM f).andThen (l'.allM f) := by
  induction l with
  | nil => rfl
  | cons a as ih => rw [List.cons_append, allM_cons, ih, allM_cons, Prog.andThen_assoc]

theorem allM_flatMap (f : β → Prog σ Bool) (g : α → List β) (l : List α) :
    (l.flatMap g).allM f = l.allM fun a => (g a).allM f := by
  induction l with
  | nil => rfl
  | cons a as ih => rw [List.flatMap_cons, allM_append, ih, allM_cons]

/-! ## Runs -/

/-- The run of `is` from `s` meets `C` at each step, in the state that step starts from. -/
def Along (C : σ → ι → Prop) (step : σ → ι → σ) : σ → List ι → Prop
  | _, [] => True
  | s, i :: is => C s i ∧ Along C step (step s i) is

theorem Along.invariant {C : σ → ι → Prop} {step : σ → ι → σ} {I : σ → Prop}
    (hstep : ∀ s i, C s i → I s → I (step s i)) {s : σ} {is : List ι}
    (h : Along C step s is) (hs : I s) : I (is.foldl step s) := by
  induction is generalizing s with
  | nil => exact hs
  | cons i is ih => exact ih h.2 (hstep s i h.1 hs)

theorem Along.of_forall {C : σ → ι → Prop} {step : σ → ι → σ} {is : List ι}
    (h : ∀ s, ∀ i ∈ is, C s i) (s : σ) : Along C step s is := by
  induction is generalizing s with
  | nil => trivial
  | cons i is ih =>
      exact ⟨h s i (by simp), ih (fun s' j hj => h s' j (by simp [hj])) _⟩

theorem Along.append {C : σ → ι → Prop} {step : σ → ι → σ} {s : σ} {is js : List ι} :
    Along C step s (is ++ js) ↔ Along C step s is ∧ Along C step (is.foldl step s) js := by
  induction is generalizing s with
  | nil => simp [Along]
  | cons i is ih => simp [Along, ih, and_assoc]

theorem Along.mono {C C' : σ → ι → Prop} {step : σ → ι → σ} {s : σ} {is : List ι}
    (hC : ∀ s i, C s i → C' s i) (h : Along C step s is) : Along C' step s is := by
  induction is generalizing s with
  | nil => trivial
  | cons i is ih => exact ⟨hC s i h.1, ih h.2⟩

/-- `G` holds throughout a run if and only if every step meets `C`. By induction on the run: the first
step that does not meet `C` leaves the first state without `G`. Steps that meet `P` keep `K`. -/
theorem Along.prefixes_iff {P C : σ → ι → Prop} {step : σ → ι → σ} {K G : σ → Prop}
    (hkept : ∀ s i, P s i → K s → G s → K (step s i))
    (hstep : ∀ s i, P s i → K s → G s → (G (step s i) ↔ C s i)) {s : σ} {is : List ι}
    (hK : K s) (hG : G s) (hP : Along P step s is) :
    (∀ pre, pre <+: is → G (pre.foldl step s)) ↔ Along C step s is := by
  induction is generalizing s with
  | nil =>
      refine iff_of_true (fun pre hpre => ?_) trivial
      rw [List.prefix_nil.1 hpre]
      exact hG
  | cons i is ih =>
      obtain ⟨hi, his⟩ := hP
      have hK' := hkept s i hi hK hG
      have hiff := hstep s i hi hK hG
      constructor
      · intro hall
        have hone : G (step s i) := hall [i] ⟨is, rfl⟩
        refine ⟨hiff.1 hone, (ih hK' hone his).1 fun pre hpre => ?_⟩
        exact hall (i :: pre) (List.cons_prefix_cons.2 ⟨rfl, hpre⟩)
      · rintro ⟨hC, hrest⟩ pre hpre
        cases pre with
        | nil => exact hG
        | cons j pre =>
            obtain ⟨rfl, htail⟩ := List.cons_prefix_cons.1 hpre
            exact (ih hK' (hiff.2 hC) his).2 hrest pre htail

instance Along.decidable {C : σ → ι → Prop} [∀ s i, Decidable (C s i)] {step : σ → ι → σ} :
    ∀ s is, Decidable (Along C step s is)
  | _, [] => inferInstanceAs (Decidable True)
  | s, i :: is =>
      have : Decidable (Along C step (step s i) is) := Along.decidable (step s i) is
      inferInstanceAs (Decidable (C s i ∧ Along C step (step s i) is))

end StateRun
