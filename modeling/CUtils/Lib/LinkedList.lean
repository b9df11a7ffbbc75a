import Mathlib.Data.List.Nodup
import Mathlib.Logic.Function.Basic

/-!
# Intrusive doubly linked lists

The links live in the nodes: `next` and `prev` of every node, null when absent. `Chain a xs` says
that the nodes behind `a` are `xs`, in that order, with the links of both directions in place.
Inserting, taking out and dissolving are the usual surgery on the links; each comes with the lemma
that says what it does to the chain it works on, and `Chain.congr` is the frame rule for the
chains it does not touch.
-/

namespace LinkedList

variable {ν : Type}

structure Links (ν : Type) where
  next : ν → Option ν
  prev : ν → Option ν

namespace Links

/-! ## Chains -/

/-- The nodes behind `a` are `xs`. -/
def Chain (l : Links ν) : ν → List ν → Prop
  | a, [] => l.next a = none
  | a, x :: xs => l.next a = some x ∧ l.prev x = some a ∧ l.Chain x xs

variable {l l' : Links ν} {a t : ν} {xs ys : List ν}

/-- A chain whose links have not been touched is still there. -/
theorem Chain.congr (h : l.Chain a xs) (hnext : ∀ b ∈ a :: xs, l'.next b = l.next b)
    (hprev : ∀ b ∈ xs, l'.prev b = l.prev b) : l'.Chain a xs := by
  induction xs generalizing a with
  | nil => exact (hnext a (by simp)).trans h
  | cons x xs ih =>
      obtain ⟨hax, hxa, hrest⟩ := h
      refine ⟨(hnext a (by simp)).trans hax, (hprev x (by simp)).trans hxa, ih hrest ?_ ?_⟩
      · intro b hb
        exact hnext b (List.mem_cons_of_mem a hb)
      · intro b hb
        exact hprev b (List.mem_cons_of_mem x hb)

theorem Chain.head_eq (h : l.Chain a xs) : l.next a = xs.head? := by
  cases xs with
  | nil => exact h
  | cons x xs => exact h.1

/-- A node of a chain has a node before it. -/
theorem Chain.prev_isSome (h : l.Chain a xs) (ht : t ∈ xs) : (l.prev t).isSome = true := by
  induction xs generalizing a with
  | nil => exact absurd ht (by simp)
  | cons x xs ih =>
      rcases List.mem_cons.1 ht with rfl | ht
      · rw [h.2.1]
        rfl
      · exact ih h.2.2 ht

theorem chain_append (h : l.Chain a (xs ++ t :: ys)) :
    l.prev t = some (xs.getLast?.getD a) ∧ l.next (xs.getLast?.getD a) = some t ∧ l.Chain t ys := by
  induction xs generalizing a with
  | nil => exact ⟨h.2.1, h.1, h.2.2⟩
  | cons x xs ih =>
      have := ih h.2.2
      rw [List.getLast?_cons]
      exact this

theorem last_mem (a : ν) (xs : List ν) : xs.getLast?.getD a ∈ a :: xs :=
  List.mem_of_getLast? List.getLast?_cons

/-! ## Walking -/

/-- The nodes behind `a`, at most `fuel` of them. -/
def walk (l : Links ν) : Nat → ν → List ν
  | 0, _ => []
  | fuel + 1, a => (l.next a).elim [] fun x => x :: l.walk fuel x

theorem Chain.walk_eq (h : l.Chain a xs) {fuel : Nat} (hfuel : xs.length ≤ fuel) :
    l.walk fuel a = xs := by
  induction xs generalizing a fuel with
  | nil =>
      cases fuel with
      | zero => rfl
      | succ fuel => rw [walk, show l.next a = none from h, Option.elim_none]
  | cons x xs ih =>
      cases fuel with
      | zero => exact absurd hfuel (by simp)
      | succ fuel =>
          rw [walk, h.1, Option.elim_some, ih h.2.2 (by simpa using hfuel)]

/-! ## Setting links -/

variable [DecidableEq ν]

def setNext (l : Links ν) (a : ν) (x : Option ν) : Links ν :=
  { l with next := Function.update l.next a x }

def setPrev (l : Links ν) (a : ν) (x : Option ν) : Links ν :=
  { l with prev := Function.update l.prev a x }

@[simp] theorem setNext_next (l : Links ν) (a : ν) (x : Option ν) (b : ν) :
    (l.setNext a x).next b = if b = a then x else l.next b := by
  simp [setNext, Function.update_apply]

@[simp] theorem setNext_prev (l : Links ν) (a : ν) (x : Option ν) :
    (l.setNext a x).prev = l.prev := rfl

@[simp] theorem setPrev_prev (l : Links ν) (a : ν) (x : Option ν) (b : ν) :
    (l.setPrev a x).prev b = if b = a then x else l.prev b := by
  simp [setPrev, Function.update_apply]

@[simp] theorem setPrev_next (l : Links ν) (a : ν) (x : Option ν) :
    (l.setPrev a x).next = l.next := rfl

/-- `if (n != nullptr) n->prev_ = x;` -/
def setPrevOf (l : Links ν) (n : Option ν) (x : Option ν) : Links ν :=
  n.elim l fun n => l.setPrev n x

/-- `if (n != nullptr) n->next_ = x;` -/
def setNextOf (l : Links ν) (n : Option ν) (x : Option ν) : Links ν :=
  n.elim l fun n => l.setNext n x

@[simp] theorem setPrevOf_next (l : Links ν) (n x : Option ν) : (l.setPrevOf n x).next = l.next := by
  cases n <;> rfl

@[simp] theorem setNextOf_prev (l : Links ν) (n x : Option ν) : (l.setNextOf n x).prev = l.prev := by
  cases n <;> rfl

@[simp] theorem setPrevOf_prev (l : Links ν) (n x : Option ν) (b : ν) :
    (l.setPrevOf n x).prev b = if n = some b then x else l.prev b := by
  cases n with
  | none => simp [setPrevOf]
  | some n => simp [setPrevOf, eq_comm]

@[simp] theorem setNextOf_next (l : Links ν) (n x : Option ν) (b : ν) :
    (l.setNextOf n x).next b = if n = some b then x else l.next b := by
  cases n with
  | none => simp [setNextOf]
  | some n => simp [setNextOf, eq_comm]

/-! ## Surgery -/

/-- Insert `t` right behind `a`. -/
def insertFront (l : Links ν) (a t : ν) : Links ν :=
  let h := l.next a
  (((l.setNext t h).setPrev t (some a)).setPrevOf h (some t)).setNext a (some t)

theorem Chain.insertFront (h : l.Chain a xs) (hta : t ≠ a) (ht : t ∉ xs) (ha : a ∉ xs)
    (hxs : xs.Nodup) : (l.insertFront a t).Chain a (t :: xs) := by
  have hhead := h.head_eq
  have hhead' : ∀ b, l.next a = some b → b ≠ t := by
    intro b hb hbt
    rw [hhead] at hb
    exact ht (hbt ▸ List.mem_of_mem_head? hb)
  refine ⟨by simp [Links.insertFront], ?_, ?_⟩
  · have hne : l.next a ≠ some t := fun hb => hhead' t hb rfl
    simp [Links.insertFront, hne]
  · cases xs with
    | nil =>
        have hnone : l.next a = none := h
        show (l.insertFront a t).next t = none
        simp [Links.insertFront, hta, hnone]
    | cons x xs =>
        obtain ⟨hax, hxa, hrest⟩ := h
        have hxt : x ≠ t := hhead' x hax
        have hx := List.nodup_cons.1 hxs
        refine ⟨?_, ?_, ?_⟩
        · simp [Links.insertFront, hta, hax]
        · simp [Links.insertFront, hax]
        · refine hrest.congr (fun b hb => ?_) fun b hb => ?_
          · have hba : b ≠ a := fun hba => ha (hba ▸ hb)
            have hbt : b ≠ t := fun hbt => ht (hbt ▸ hb)
            simp [Links.insertFront, hba, hbt]
          · have hbt : b ≠ t := fun hbt => ht (hbt ▸ List.mem_cons_of_mem x hb)
            have hbx : x ≠ b := fun hbx => hx.1 (hbx ▸ hb)
            simp [Links.insertFront, hax, hbt, hbx]

/-- Take `t` out: the nodes before and behind it are linked to each other. -/
def unlink (l : Links ν) (t : ν) : Links ν :=
  let bypassed := (l.setNextOf (l.prev t) (l.next t)).setPrevOf (l.next t) (l.prev t)
  (bypassed.setPrev t none).setNext t none

theorem unlink_next (l : Links ν) (t b : ν) :
    (l.unlink t).next b = if b = t then none else if l.prev t = some b then l.next t else l.next b := by
  simp [unlink]

theorem unlink_prev (l : Links ν) (t b : ν) :
    (l.unlink t).prev b = if b = t then none else if l.next t = some b then l.prev t else l.prev b := by
  simp [unlink]

theorem Chain.unlink (h : l.Chain a (xs ++ t :: ys)) (hnodup : (a :: (xs ++ t :: ys)).Nodup) :
    (l.unlink t).Chain a (xs ++ ys) := by
  induction xs generalizing a with
  | nil =>
      obtain ⟨hat, hta, hrest⟩ := h
      simp only [List.nil_append, List.nodup_cons] at hnodup
      obtain ⟨ha, ht, hys⟩ := hnodup
      have hne : a ≠ t := fun hat => ha (hat ▸ List.mem_cons_self)
      cases ys with
      | nil =>
          have hnone : l.next t = none := hrest
          show (l.unlink t).next a = none
          rw [unlink_next, if_neg hne, if_pos hta, hnone]
      | cons y ys =>
          obtain ⟨hty, hyt, hrest⟩ := hrest
          obtain ⟨hy, -⟩ := List.nodup_cons.1 hys
          have hyne : y ≠ t := fun hyt => ht (hyt ▸ List.mem_cons_self)
          refine ⟨?_, ?_, hrest.congr (fun b hb => ?_) fun b hb => ?_⟩
          · rw [unlink_next, if_neg hne, if_pos hta, hty]
          · rw [unlink_prev, if_neg hyne, if_pos hty, hta]
          · have hbt : b ≠ t := fun hbt => ht (hbt ▸ hb)
            have hba : l.prev t ≠ some b := by
              rw [hta]
              intro hab
              exact ha (Option.some.inj hab ▸ List.mem_cons_of_mem t hb)
            rw [unlink_next, if_neg hbt, if_neg hba]
          · have hbt : b ≠ t := fun hbt => ht (hbt ▸ List.mem_cons_of_mem y hb)
            have hby : l.next t ≠ some b := by
              rw [hty]
              intro hyb
              exact hy (Option.some.inj hyb ▸ hb)
            rw [unlink_prev, if_neg hbt, if_neg hby]
  | cons x xs ih =>
      obtain ⟨hax, hxa, hrest⟩ := h
      obtain ⟨hprev, hnext, hback⟩ := chain_append hrest
      rw [List.cons_append, List.nodup_cons] at hnodup
      obtain ⟨ha, hnodup⟩ := hnodup
      have hlast := last_mem x xs
      have hat : a ≠ t := fun hat => ha (by simp [hat])
      have hxt : x ≠ t := by
        rintro rfl
        exact (List.nodup_cons.1 hnodup).1 (by simp)
      refine ⟨?_, ?_, ih hrest hnodup⟩
      · have hpa : l.prev t ≠ some a := by
          rw [hprev]
          intro hla
          refine ha ?_
          rw [← Option.some.inj hla, ← List.cons_append]
          exact List.mem_append_left _ hlast
        rw [unlink_next, if_neg hat, if_neg hpa, hax]
      · have hnx : l.next t ≠ some x := by
          rw [hback.head_eq]
          intro hyx
          exact (List.nodup_cons.1 hnodup).1 (by simp [List.mem_of_mem_head? hyx])
        rw [unlink_prev, if_neg hxt, if_neg hnx, hxa]

/-- Taking out a node of another chain does not touch this one. -/
theorem Chain.unlink_of_disjoint {b : ν} {zs : List ν} (hother : l.Chain b zs)
    (h : l.Chain a (xs ++ t :: ys)) (hdisj : ∀ c ∈ b :: zs, c ∉ a :: (xs ++ t :: ys)) :
    (l.unlink t).Chain b zs := by
  obtain ⟨hprev, -, hback⟩ := chain_append h
  have hlast := last_mem a xs
  refine hother.congr (fun c hc => ?_) fun c hc => ?_
  · have hmem := hdisj c hc
    have hct : c ≠ t := fun hct => hmem (by simp [hct])
    have hpc : l.prev t ≠ some c := by
      rw [hprev]
      intro hlc
      refine hmem ?_
      rw [← Option.some.inj hlc, ← List.cons_append]
      exact List.mem_append_left _ hlast
    rw [unlink_next, if_neg hct, if_neg hpc]
  · have hmem := hdisj c (List.mem_cons_of_mem b hc)
    have hct : c ≠ t := fun hct => hmem (by simp [hct])
    have hnc : l.next t ≠ some c := by
      rw [hback.head_eq]
      intro hyc
      exact hmem (by simp [List.mem_of_mem_head? hyc])
    rw [unlink_prev, if_neg hct, if_neg hnc]

/-- The loop that dissolves a list node by node, from `cur` on. -/
def dissolve (l : Links ν) : Nat → Option ν → Links ν
  | 0, _ => l
  | _ + 1, none => l
  | fuel + 1, some cur =>
      let l' := (l.setNextOf (l.prev cur) none).setPrev cur none
      l'.dissolve fuel (l'.next cur)

/-- Dissolving a chain unlinks its nodes and touches no other. -/
theorem Chain.dissolve (h : l.Chain a xs) (hnodup : (a :: xs).Nodup) {fuel : Nat}
    (hfuel : xs.length ≤ fuel) :
    (∀ b ∈ a :: xs, (l.dissolve fuel (l.next a)).next b = none) ∧
      (∀ b ∈ xs, (l.dissolve fuel (l.next a)).prev b = none) ∧
      (∀ b ∉ a :: xs, (l.dissolve fuel (l.next a)).next b = l.next b) ∧
      ∀ b ∉ xs, (l.dissolve fuel (l.next a)).prev b = l.prev b := by
  induction xs generalizing a l fuel with
  | nil =>
      have hnone : l.next a = none := h
      have hsame : l.dissolve fuel (l.next a) = l := by
        rw [hnone]
        cases fuel <;> rfl
      rw [hsame]
      refine ⟨fun b hb => ?_, fun b hb => absurd hb (by simp), fun _ _ => rfl, fun _ _ => rfl⟩
      rw [List.mem_singleton.1 hb]
      exact hnone
  | cons x xs ih =>
      obtain ⟨hax, hxa, hrest⟩ := h
      obtain ⟨ha, hxs⟩ := List.nodup_cons.1 hnodup
      have hxa' : a ≠ x := fun hax => ha (hax ▸ List.mem_cons_self)
      cases fuel with
      | zero => exact absurd hfuel (by simp)
      | succ fuel =>
          set l' := (l.setNext a none).setPrev x none with hl'
          have hstep : l.dissolve (fuel + 1) (l.next a) = l'.dissolve fuel (l'.next x) := by
            rw [hax]
            show Links.dissolve ((l.setNextOf (l.prev x) none).setPrev x none) fuel _ = _
            rw [hxa]
            rfl
          have hchain : l'.Chain x xs := by
            refine hrest.congr (fun b hb => ?_) fun b hb => ?_
            · have hba : b ≠ a := fun hba => ha (hba ▸ hb)
              simp [hl', hba]
            · have hbx : b ≠ x := fun hbx => (List.nodup_cons.1 hxs).1 (hbx ▸ hb)
              simp [hl', hbx]
          obtain ⟨hnext, hprev, hframe, hframe'⟩ := ih hchain hxs (by simpa using hfuel)
          rw [hstep]
          refine ⟨fun b hb => ?_, fun b hb => ?_, fun b hb => ?_, fun b hb => ?_⟩
          · rcases List.mem_cons.1 hb with rfl | hb
            · rw [hframe b ha]
              simp [hl']
            · exact hnext b hb
          · rcases List.mem_cons.1 hb with rfl | hb
            · rw [hframe' b (List.nodup_cons.1 hxs).1]
              simp [hl']
            · exact hprev b hb
          · have hba : b ≠ a := fun hba => hb (hba ▸ List.mem_cons_self)
            rw [hframe b fun hmem => hb (List.mem_cons_of_mem a hmem)]
            simp [hl', hba]
          · have hbx : b ≠ x := fun hbx => hb (hbx ▸ List.mem_cons_self)
            rw [hframe' b fun hmem => hb (List.mem_cons_of_mem x hmem)]
            simp [hl', hbx]

end Links

end LinkedList
