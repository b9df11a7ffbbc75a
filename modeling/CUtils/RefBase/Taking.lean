import CUtils.RefBase.Release

/-!
# References taken before a release

Whether a strong reference to an object is taken before a release or after it makes no difference
to the heap, provided that the object is alive after the release: every call on the stack does the
same with the counter one higher. `a = b` and `a = w.promote()` take the reference first,
`a = std::move(b)` and `a = w` take it afterwards.
-/

namespace CUtils.RefBases

open CallStack

namespace RefCounter

/-- `n` strong references more. -/
def taken (n : Int) (c : RefCounter) : RefCounter :=
  { c with strong := (if c.strong = initialPrimaryValue then 0 else c.strong) + n
           weak := c.weak + n }

/-- The counts are those of references, and two more would fit. -/
structure Fits (c : RefCounter) : Prop where
  strong : c.strong = initialPrimaryValue ∨ 0 ≤ c.strong ∧ c.strong ≤ c.weak
  nonneg : 0 ≤ c.weak
  room : c.weak + 2 < initialPrimaryValue

variable {c : RefCounter} {n : Int}

theorem Fits.bounds (hc : c.Fits) :
    0 ≤ (if c.strong = initialPrimaryValue then 0 else c.strong) ∧
      (if c.strong = initialPrimaryValue then 0 else c.strong) ≤ c.weak := by
  have hnonneg := hc.nonneg
  split_ifs with hi
  · omega
  · exact hc.strong.resolve_left hi

theorem incStrong_eq (hc : c.Fits) : c.incStrong = c.taken 1 := by
  have hinit : initialPrimaryValue = 2 ^ 28 := rfl
  have hroom := hc.room
  have hnonneg := hc.nonneg
  unfold incStrong taken
  simp only
  rw [int32_eq (n := c.weak + 1) (by omega) (by omega)]
  rcases hc.strong with hi | ⟨hlo, hhi⟩
  · rw [hi, int32_eq (n := initialPrimaryValue + 1) (by omega) (by omega)]
    rfl
  · rw [if_pos (by omega), if_neg (by omega), if_neg (by omega),
      int32_eq (n := c.strong + 1) (by omega) (by omega)]

theorem incStrong_taken (hc : c.Fits) : (c.taken 1).incStrong = c.taken 2 := by
  have hinit : initialPrimaryValue = 2 ^ 28 := rfl
  have hroom := hc.room
  have hb := hc.bounds
  unfold incStrong taken
  simp only
  generalize (if c.strong = initialPrimaryValue then 0 else c.strong) = m at hb ⊢
  rw [if_pos (by omega), if_neg (by omega), int32_eq (n := m + 1 + 1) (by omega) (by omega),
    int32_eq (n := c.weak + 1 + 1) (by omega) (by omega), add_assoc, add_assoc]
  rfl

/-! ### What the calls do to a counter with references taken -/

theorem decStrong_taken (hc : c.Fits) (hn : 0 < n) (hn' : n ≤ 2) (hpos : 0 < c.strong)
    (hne : c.strong ≠ initialPrimaryValue) :
    (c.taken n).decStrong = (c.strong + n, c.decStrong.2.taken n) := by
  have hinit : initialPrimaryValue = 2 ^ 28 := rfl
  have hroom := hc.room
  obtain ⟨hlo, hhi⟩ := hc.strong.resolve_left hne
  unfold decStrong taken
  simp only [if_neg hne, if_pos hpos]
  rw [if_neg (by omega), if_pos (by omega), int32_eq (n := c.strong + n - 1) (by omega) (by omega),
    int32_eq (n := c.strong - 1) (by omega) (by omega), if_neg (by omega)]
  simp only [Prod.mk.injEq, true_and, mk.injEq, and_true]
  omega

theorem decWeak_taken (hc : c.Fits) (hn : 0 < n) (hn' : n ≤ 2) (hpos : 0 < c.weak) :
    (c.taken n).decWeak = c.decWeak.taken n := by
  have hinit : initialPrimaryValue = 2 ^ 28 := rfl
  have hroom := hc.room
  unfold decWeak taken
  simp only [if_pos hpos]
  rw [if_pos (by omega), int32_eq (n := c.weak + n - 1) (by omega) (by omega),
    int32_eq (n := c.weak - 1) (by omega) (by omega)]
  simp only [mk.injEq, true_and, and_true]
  omega

theorem decRef_taken (c : RefCounter) (n : Int) : (c.taken n).decRef = c.decRef.taken n := by
  unfold decRef
  by_cases hpos : c.refCount > 0
  · rw [if_pos hpos, if_pos (show (c.taken n).refCount > 0 from hpos)]
    rfl
  · rw [if_neg hpos, if_neg (show ¬(c.taken n).refCount > 0 from hpos)]

end RefCounter

namespace Heap

/-! ## Calls on other objects -/

variable {s h : Heap} {a x y : Nat} {c : RefCounter} {ts : List Call}

@[simp] theorem alive_setRefs (h : Heap) (x : Nat) (c : RefCounter) :
    (h.setRefs x c).alive = h.alive := rfl

@[simp] theorem sptrs_setRefs (h : Heap) (x : Nat) (c : RefCounter) :
    (h.setRefs x c).sptrs = h.sptrs := rfl

@[simp] theorem ptr_setRefs (h : Heap) (x : Nat) (c : RefCounter) :
    (h.setRefs x c).ptr = h.ptr := rfl

@[simp] theorem wptrs_setRefs (h : Heap) (x : Nat) (c : RefCounter) :
    (h.setRefs x c).wptrs = h.wptrs := rfl

@[simp] theorem target_setRefs (h : Heap) (x : Nat) (c : RefCounter) :
    (h.setRefs x c).target = h.target := rfl

@[simp] theorem wrc_setRefs (h : Heap) (x : Nat) (c : RefCounter) :
    (h.setRefs x c).wrc = h.wrc := rfl

theorem setRefs_comm (h : Heap) (hxy : y ≠ x) (c d : RefCounter) :
    (h.setRefs x c).setRefs y d = (h.setRefs y d).setRefs x c := by
  simp only [setRefs]
  rw [Function.update_comm hxy]

theorem setRefs_setRefs (h : Heap) (x : Nat) (c d : RefCounter) :
    (h.setRefs x c).setRefs x d = h.setRefs x d := by
  simp [setRefs]

theorem callback_setRefs (h : Heap) (hyx : y ≠ x) (c : RefCounter) :
    (h.setRefs x c).callback y = ((h.callback y).1.setRefs x c, (h.callback y).2) := by
  unfold callback
  rw [refs_setRefs_of_ne h hyx, alive_setRefs]
  split_ifs <;> rfl

theorem refs_callback (h : Heap) (y : Nat) : (h.callback y).1.refs = h.refs := by
  unfold callback
  split_ifs <;> rfl

theorem step_drop_setRefs (h : Heap) (r : Ref) (x : Nat) (c : RefCounter) :
    (h.setRefs x c).step (.drop r) =
      ((h.step (.drop r)).1.setRefs x c, (h.step (.drop r)).2) := by
  cases r with
  | sptr l =>
      simp only [step, dropSptr]
      by_cases hl : l ∈ h.sptrs
      · rw [if_pos hl, if_pos (show l ∈ (h.setRefs x c).sptrs from hl)]
        rfl
      · rw [if_neg hl, if_neg (show l ∉ (h.setRefs x c).sptrs from hl)]
        rfl
  | wptr l =>
      simp only [step, dropWptr, target_setRefs]
      by_cases hl : l ∈ h.wptrs
      · rw [if_pos hl, if_pos (show l ∈ (h.setRefs x c).wptrs from hl)]
        cases h.target l with
        | none => rfl
        | some d =>
            change ((h.eraseWptr l).setRefs x c).dropWrc d = _
            simp only [dropWrc]
            by_cases hone : ((h.eraseWptr l).wrc d).weak = 1
            · rw [if_pos hone,
                if_pos (show (((h.eraseWptr l).setRefs x c).wrc d).weak = 1 from hone)]
              rfl
            · rw [if_neg hone,
                if_neg (show ¬(((h.eraseWptr l).setRefs x c).wrc d).weak = 1 from hone)]
              rfl
      · rw [if_neg hl, if_neg (show l ∉ (h.setRefs x c).wptrs from hl)]
        rfl

theorem step_decStrongRef_setRefs (h : Heap) (hyx : y ≠ x) (c : RefCounter) :
    (h.setRefs x c).decStrongRef y = ((h.decStrongRef y).1.setRefs x c, (h.decStrongRef y).2) ∧
      (h.decStrongRef y).1.refs x = h.refs x := by
  unfold decStrongRef
  rw [refs_setRefs_of_ne h hyx]
  simp only
  rw [setRefs_comm h hyx, callback_setRefs _ hyx]
  split_ifs
  · exact ⟨rfl, by rw [refs_callback, refs_setRefs_of_ne h (Ne.symm hyx)]⟩
  · exact ⟨rfl, refs_setRefs_of_ne h (Ne.symm hyx) _⟩
  · exact ⟨rfl, rfl⟩

theorem step_decWeakRefCount_setRefs (h : Heap) (hyx : y ≠ x) (c : RefCounter) :
    (h.setRefs x c).decWeakRefCount y =
        ((h.decWeakRefCount y).1.setRefs x c, (h.decWeakRefCount y).2) ∧
      (h.decWeakRefCount y).1.refs x = h.refs x := by
  unfold decWeakRefCount
  rw [refs_setRefs_of_ne h hyx]
  simp only
  rw [setRefs_comm h hyx, callback_setRefs _ hyx]
  split_ifs
  · exact ⟨rfl, refs_setRefs_of_ne h (Ne.symm hyx) _⟩
  · exact ⟨rfl, by rw [refs_callback, refs_setRefs_of_ne h (Ne.symm hyx)]⟩
  · exact ⟨rfl, by rw [refs_callback, refs_setRefs_of_ne h (Ne.symm hyx)]⟩
  · refine ⟨by rw [setRefs_comm _ hyx], ?_⟩
    rw [refs_setRefs_of_ne _ (Ne.symm hyx), refs_setRefs_of_ne h (Ne.symm hyx)]

/-! ## Calls on the object itself -/

/-- `n` strong references to `x` more. -/
def taken (h : Heap) (n : Int) (x : Nat) : Heap := h.setRefs x ((h.refs x).taken n)

variable {n : Int}

theorem Counted.fits {a : Option Nat} (hc : h.Counted a ts) (x : Nat) : (h.refs x).Fits := by
  have hw := hc.weak x
  refine ⟨?_, by omega, hc.room x⟩
  rcases hc.strong x with hs | hs
  · exact Or.inl hs.1
  · exact Or.inr (by omega)

theorem refs_taken_self (h : Heap) (n : Int) (x : Nat) :
    (h.taken n x).refs x = (h.refs x).taken n :=
  refs_setRefs_self h x _

theorem setRefs_taken (h : Heap) (n : Int) (x : Nat) (c : RefCounter) :
    (h.setRefs x c).taken n x = h.setRefs x (c.taken n) := by
  rw [taken, refs_setRefs_self, setRefs_setRefs]

theorem not_mem_callback (hcb : (h.refs x).callback = true) (hx : x ∈ (h.callback x).1.alive) :
    False := by
  unfold callback at hx
  rw [if_pos hcb] at hx
  split_ifs at hx with halive
  · exact Finset.notMem_erase x h.alive hx
  · exact halive hx

theorem decStrongRef_taken (hi : Inv s a h (.decStrongRef x :: ts)) (hn : 0 < n) (hn' : n ≤ 2)
    (hx : x ∈ (h.decStrongRef x).1.alive) :
    (h.taken n x).decStrongRef x =
      ((h.decStrongRef x).1.taken n x, (h.decStrongRef x).2) := by
  obtain ⟨heq, hpos, hne⟩ := hi.core.counted.decStrong
  have halive : x ∈ h.alive := (shrinks_step h (.decStrongRef x)).alive hx
  have hcb := hi.core.dying.called x halive
  have htaken := RefCounter.decStrong_taken (hi.core.counted.fits x) hn hn' hpos hne
  unfold decStrongRef at hx ⊢
  rw [if_pos hcb] at hx ⊢
  rw [refs_taken_self, if_pos (show ((h.refs x).taken n).callback = true from hcb)]
  simp only at hx ⊢
  -- otherwise the object would have been deleted
  have hlast : ¬((h.refs x).decStrong.1 = 1 ∧ (!(h.refs x).decStrong.2.extended) = true) := by
    intro hlast
    rw [if_pos hlast] at hx
    refine not_mem_callback ?_ hx
    rw [refs_setRefs_self, heq]
    exact hcb
  rw [if_neg hlast, if_neg, htaken]
  · simp only
    rw [taken, setRefs_setRefs, setRefs_taken]
  · rw [htaken]
    simp only
    omega

theorem decWeakRefCount_taken (hw : s.WellFormed) (hi : Inv s a h (.decWeakRefCount x :: ts))
    (hn : 0 < n) (hn' : n ≤ 2) (hx : x ∈ (h.decWeakRefCount x).1.alive) :
    (h.taken n x).decWeakRefCount x =
      ((h.decWeakRefCount x).1.taken n x, (h.decWeakRefCount x).2) := by
  obtain ⟨heq, hpos⟩ := hi.core.counted.decWeak
  have halive : x ∈ h.alive := (shrinks_step h (.decWeakRefCount x)).alive hx
  have hcb := hi.core.dying.called x halive
  have htaken := RefCounter.decWeak_taken (hi.core.counted.fits x) hn hn' hpos
  have hcallback : ((h.setRefs x (h.refs x).decWeak).refs x).callback = true := by
    rw [refs_setRefs_self, heq]
    exact hcb
  have hone : (h.refs x).weak ≠ 1 := by
    intro hone
    unfold decWeakRefCount at hx
    simp only at hx
    rw [if_neg (not_not.2 hone)] at hx
    split_ifs at hx with hext hnever
    · exact not_mem_callback hcallback hx
    · exact not_mem_callback hcallback hx
    · -- without strong references it would not be alive
      rw [extended_decWeak] at hext
      rw [heq] at hnever
      have hne : (h.refs x).strong ≠ initialPrimaryValue := hnever
      have hstrong := (hi.core.counted.strong_lt hne).2.2
      have hweak := hi.core.counted.weak x
      rw [List.count_cons_self] at hweak
      have hspent : (h.refs x).Spent :=
        ⟨fun hl => absurd hl (not_or.2 ⟨hext, hne⟩), fun _ => by omega⟩
      obtain ⟨r, hr, hrefers⟩ := hi.core.dying.weak x (by simp)
      exact absurd (hi.kept x halive hspent) (ne_of_gt (hw.counted.weak_pos hr hrefers))
  unfold decWeakRefCount
  simp only
  rw [refs_taken_self, if_pos hone, if_pos, htaken]
  · rw [taken, setRefs_setRefs, setRefs_taken]
  · simp only [RefCounter.taken]
    omega

theorem step_taken (hw : s.WellFormed) {t : Call} (hi : Inv s a h (t :: ts)) (hn : 0 < n)
    (hn' : n ≤ 2) (hx : x ∈ (h.step t).1.alive) :
    (h.taken n x).step t = ((h.step t).1.taken n x, (h.step t).2) := by
  have halive : x ∈ h.alive := (shrinks_step h t).alive hx
  cases t with
  | drop r =>
      rw [taken, step_drop_setRefs, taken, (step_drop h r).1]
  | decStrongRef y =>
      by_cases hyx : y = x
      · subst hyx
        exact decStrongRef_taken hi hn hn' hx
      · obtain ⟨hstep, hrefs⟩ := step_decStrongRef_setRefs h hyx ((h.refs x).taken n)
        simp only [step, taken]
        rw [hstep, hrefs]
  | decWeakRefCount y =>
      by_cases hyx : y = x
      · subst hyx
        exact decWeakRefCount_taken hw hi hn hn' hx
      · obtain ⟨hstep, hrefs⟩ := step_decWeakRefCount_setRefs h hyx ((h.refs x).taken n)
        simp only [step, taken]
        rw [hstep, hrefs]
  | destructor y =>
      have hyx : y ≠ x := by
        rintro rfl
        exact (hi.core.dying.destructor y (by simp)).2 halive
      simp only [step, taken]
      rw [refs_setRefs_of_ne h hyx, refs_setRefs_of_ne h (Ne.symm hyx), setRefs_comm h hyx]
  | decRefCount y =>
      by_cases hyx : y = x
      · subst hyx
        simp only [step]
        rw [setRefs_taken, refs_taken_self, taken, setRefs_setRefs, RefCounter.decRef_taken]
      · simp only [step, taken]
        rw [refs_setRefs_of_ne h hyx, refs_setRefs_of_ne h (Ne.symm hyx), setRefs_comm h hyx]

/-- Taken before or after: the release does the same, if the object outlives it. -/
theorem releaseOld_taken (hw : s.WellFormed) (ha : a ∈ s.sptrs) (hlost : ¬s.Lost a (.sptr a))
    (hx : x ∈ s.alive) (hdoomed : ¬s.Doomed a x) (hn : 0 < n) (hn' : n ≤ 2) :
    (s.taken n x).releaseOld a = (s.releaseOld a).taken n x := by
  obtain ⟨hi, hmem⟩ := Inv.release hw ha hlost
  have hend : x ∈ (s.releaseOld a).alive := (hi.mem_alive hw).2 ⟨hx, hdoomed⟩
  rw [releaseOld_eq] at hmem hend
  rw [releaseOld_eq, releaseOld_eq]
  refine Machine.run_commutes (m := calls) (I := Inv s a)
    (Q := fun h => a ∈ h.sptrs ∧ x ∈ h.alive) (fun h => h.taken n x) ?_ ?_ ?_
    (Inv.start hw ha) ⟨hmem, hend⟩
  · rintro h t ⟨ha, hx⟩
    exact ⟨(mem_sptrs_step.1 ha).1, (shrinks_step h t).alive hx⟩
  · rintro h t ts hi ⟨ha, -⟩
    exact hi.step hw (mem_sptrs_step.1 ha).2
  · rintro h t ts hi ⟨-, hx⟩
    exact step_taken hw hi hn hn' hx

/-- One of the references taken is given back. -/
theorem release_setRefs {c : RefCounter} (hcb : c.callback = true) (hs : 1 < c.strong)
    (hw : 1 < c.weak) (hs' : c.strong < initialPrimaryValue) (hw' : c.weak < initialPrimaryValue) :
    (h.setRefs x c).release x =
      h.setRefs x { c with strong := c.strong - 1, weak := c.weak - 1 } := by
  have hinit : initialPrimaryValue = 2 ^ 28 := rfl
  have hstrong : c.decStrong = (c.strong, { c with strong := c.strong - 1 }) := by
    rw [RefCounter.decStrong, if_neg (by omega), if_pos (by omega), int32_eq (by omega) (by omega)]
  have hfirst : (h.setRefs x c).step (.decStrongRef x) =
      (h.setRefs x { c with strong := c.strong - 1 }, [.decWeakRefCount x]) := by
    simp only [step, decStrongRef, refs_setRefs_self]
    rw [if_pos hcb, hstrong, if_neg (by simp only; omega), setRefs_setRefs]
  have hsecond : (h.setRefs x { c with strong := c.strong - 1 }).step (.decWeakRefCount x) =
      (h.setRefs x { c with strong := c.strong - 1, weak := c.weak - 1 }, []) := by
    simp only [step, decWeakRefCount, refs_setRefs_self]
    rw [if_pos (by omega), RefCounter.decWeak, if_pos (by simp only; omega),
      int32_eq (by simp only; omega) (by simp only; omega), setRefs_setRefs]
  rw [release, Machine.run_cons]
  change calls.run ((h.setRefs x c).step (.decStrongRef x)).1
    (((h.setRefs x c).step (.decStrongRef x)).2 ++ []) = _
  rw [hfirst]
  change calls.run _ [.decWeakRefCount x] = _
  rw [Machine.run_cons]
  change calls.run ((h.setRefs x { c with strong := c.strong - 1 }).step (.decWeakRefCount x)).1
    (((h.setRefs x { c with strong := c.strong - 1 }).step (.decWeakRefCount x)).2 ++ []) = _
  rw [hsecond]
  exact Machine.run_nil _ _

end Heap

end CUtils.RefBases
