import CUtils.RefBase.Cascade

/-!
# The heap after a release

A release destroys what was doomed and nothing else: an object is alive afterwards if it was alive
and not doomed, and a smart pointer exists if it existed and was not a member of a doomed object.
If `a` itself is a member of a doomed object, it does not exist afterwards. Otherwise the heap is
well formed again as soon as `a` has a new value.
-/

namespace CUtils.RefBases

open CallStack

namespace Heap

variable {s h : Heap} {a x : Nat} {r : Ref}

theorem releaseOld_eq (h : Heap) (a : Nat) :
    h.releaseOld a = calls.run h ((h.ptr a).toList.map .decStrongRef) := by
  unfold releaseOld
  cases h.ptr a with
  | none => simp
  | some x => rfl

theorem Inv.start (hw : s.WellFormed) (ha : a ∈ s.sptrs) :
    Inv s a s ((s.ptr a).toList.map .decStrongRef) := by
  have hcounted := hw.counted.release ha
  rw [List.append_nil] at hcounted
  refine ⟨⟨hcounted, Shrinks.refl s, ⟨?_, ?_, ?_⟩, ?_, hw.defined⟩, ?_⟩
  · intro r
    have hnot : ¬Fallen s s r := fun ⟨_, hx, hdead, _⟩ => hdead hx
    simp [hnot]
  · intro r
    simp [List.count_eq_zero.2]
  · intro r hr hgone
    exact absurd hr hgone
  · constructor
    · exact fun _ => Iff.rfl
    · exact fun x hx hdead => absurd hx hdead
    · exact fun x hx hdead => absurd hx hdead
    · exact fun x hcb => Or.inl ((hw.callback x).1 hcb)
    · exact fun x hx => (hw.callback x).2 hx
    · intro x hx
      simp at hx
    · intro x hx
      have hptr : s.ptr a = some x := by simpa using hx
      exact ⟨a, ha, hptr⟩
    · intro x hx
      simp at hx
  · intro x hx hs
    by_cases hl : (s.refs x).Lasting
    · exact hs.1 hl
    · have hext : (s.refs x).extended = false := by
        simpa using (not_or.1 hl).1
      exact absurd (hs.2 hl) (hw.kept x hx hext)

/-- Only its destructor ends an `sptr`. -/
theorem mem_sptrs_step {t : Call} :
    a ∈ (h.step t).1.sptrs ↔ a ∈ h.sptrs ∧ t ≠ .drop (.sptr a) := by
  have hcallback : ∀ (h : Heap) (x : Nat), (h.callback x).1.sptrs = h.sptrs := by
    intro h x
    unfold callback
    split_ifs <;> rfl
  cases t with
  | drop r =>
      cases r with
      | sptr l =>
          simp only [step, dropSptr]
          split_ifs with hl
          · simp [Heap.eraseSptr, and_comm, eq_comm]
          · simp only [ne_eq, Call.drop.injEq, Ref.sptr.injEq, iff_self_and]
            rintro ha rfl
            exact hl ha
      | wptr l =>
          simp only [step, dropWptr]
          split_ifs
          · cases h.target l with
            | none => simp [Heap.eraseWptr]
            | some c =>
                simp only [dropWrc]
                split_ifs <;> simp [eraseWptr, setWrc, eraseWrc]
          · simp
  | decStrongRef x =>
      simp only [step, decStrongRef]
      split_ifs <;> simp [hcallback, setRefs]
  | decWeakRefCount x =>
      simp only [step, decWeakRefCount]
      split_ifs <;> simp [hcallback, setRefs]
  | destructor x => simp [step, setRefs]
  | decRefCount x => simp [step, setRefs]

/-- Unless it is lost itself, `a` outlives the release. -/
theorem Inv.release (hw : s.WellFormed) (ha : a ∈ s.sptrs) (hlost : ¬s.Lost a (.sptr a)) :
    Inv s a (s.releaseOld a) [] ∧ a ∈ (s.releaseOld a).sptrs := by
  rw [releaseOld_eq]
  refine Machine.run_invariant (I := fun h ts => Inv s a h ts ∧ a ∈ h.sptrs) (Q := fun _ => True)
    (fun _ _ _ => trivial) ?_ ⟨Inv.start hw ha, ha⟩ trivial
  rintro h t ts ⟨hi, hmem⟩ -
  have ht : t ≠ .drop (.sptr a) := by
    rintro rfl
    obtain ⟨-, x, hx, hdead, hmember⟩ := (hi.core.dropping.pending (.sptr a)).1 (by simp)
    exact hlost ⟨x, hx, hmember, hi.core.dying.doomed x hx hdead⟩
  exact ⟨hi.step hw ht, mem_sptrs_step.2 ⟨hmem, ht⟩⟩

/-- All that is doomed is dead in the end. -/
theorem Inv.dead_of_doomed (hi : Inv s a h []) (hw : s.WellFormed) (hx : s.Doomed a x) :
    x ∉ h.alive := by
  have hc := hi.core
  induction hx with
  | @intro x halive hkept howned hdoomed ih =>
      -- what keeps `x` is a member of a dead object, so it is gone
      have hgone : ∀ r, s.Keeps x r → r ≠ .sptr a → ¬h.Exists r := by
        intro r hr hra hex
        obtain ⟨y, hy, hmem⟩ := howned r hr hra
        have hfallen : Fallen s h r := ⟨y, hy, ih r hr hra y hy hmem, hmem⟩
        simpa using (hc.dropping.pending r).2 ⟨hex, hfallen⟩
      have hholders : h.holders (some a) x = ∅ := by
        rw [Finset.eq_empty_iff_forall_notMem]
        intro l hl
        obtain ⟨hl, hptr, hla⟩ := mem_holders.1 hl
        rw [hc.shrinks.ptr] at hptr
        exact hgone (.sptr l) ⟨hc.shrinks.sptrs hl, hptr, Or.inr ⟨l, rfl⟩⟩
          (by simpa using Ne.symm hla) hl
      have hweaks : (h.refs x).Lasting → h.weaks x = ∅ := by
        intro hl
        rw [Finset.eq_empty_iff_forall_notMem]
        intro c hmem
        obtain ⟨hmem, hobject⟩ := mem_weaks.1 hmem
        obtain ⟨l, hl'⟩ := (hc.counted.shared c hmem).2
        obtain ⟨hl', htarget⟩ := mem_sharers.1 hl'
        rw [hc.shrinks.target] at htarget
        rw [hc.shrinks.object] at hobject
        exact hgone (.wptr l) ⟨hc.shrinks.wptrs hl', ⟨c, htarget, hobject⟩,
          Or.inl ((hc.lasting_iff x).1 hl)⟩ (by simp) hl'
      intro hx
      have hs := hc.counted.strong x
      have hwk := hc.counted.weak x
      simp only [hholders, Finset.card_empty, List.count_nil] at hs hwk
      have hspent : (h.refs x).Spent := by
        refine ⟨fun hl => ?_, fun hl => ?_⟩
        · rw [hweaks hl, Finset.card_empty] at hwk
          omega
        · rcases hs with hs | hs
          · exact absurd (Or.inr hs.1) hl
          · omega
      obtain ⟨r, hr⟩ := hkept
      exact absurd (hi.kept x hx hspent) (ne_of_gt (hw.counted.weak_pos hr.1 hr.2.1))

theorem Inv.mem_alive (hi : Inv s a h []) (hw : s.WellFormed) :
    x ∈ h.alive ↔ x ∈ s.alive ∧ ¬s.Doomed a x := by
  constructor
  · intro hx
    exact ⟨hi.core.shrinks.alive hx, fun hd => hi.dead_of_doomed hw hd hx⟩
  · rintro ⟨hx, hd⟩
    by_contra hdead
    exact hd (hi.core.dying.doomed x hx hdead)

theorem Inv.exists_iff (hi : Inv s a h []) (hw : s.WellFormed) :
    h.Exists r ↔ s.Exists r ∧ ¬s.Lost a r := by
  constructor
  · intro hr
    refine ⟨hi.core.shrinks.exists_of_exists hr, ?_⟩
    rintro ⟨x, hx, hmem, hd⟩
    have hfallen : Fallen s h r := ⟨x, hx, hi.dead_of_doomed hw hd, hmem⟩
    simpa using (hi.core.dropping.pending r).2 ⟨hr, hfallen⟩
  · rintro ⟨hr, hlost⟩
    by_contra hgone
    obtain ⟨x, hx, hdead, hmem⟩ := hi.core.dropping.gone r hr hgone
    exact hlost ⟨x, hx, hmem, hi.core.dying.doomed x hx hdead⟩

/-- With a new value for the pointers that has the same holders, the heap is well formed again. -/
theorem Inv.wellFormed (hi : Inv s a h []) (hw : s.WellFormed) {p : Nat → Option Nat}
    (hcard : ∀ x, (({ h with ptr := p } : Heap).holders none x).card = (h.holders (some a) x).card)
    (hholds : ∀ l ∈ h.sptrs, ∀ x, p l = some x → x ∈ h.alive) :
    ({ h with ptr := p } : Heap).WellFormed := by
  have hc := hi.core
  refine ⟨⟨?_, ?_, hc.counted.room, hc.counted.wrcs, hc.counted.shared, hc.counted.few⟩, hholds, ?_,
    ?_, ?_, ?_, ?_, ?_, hc.defined⟩
  · intro x
    rw [hcard]
    exact hc.counted.strong x
  · intro x
    rw [hcard]
    exact hc.counted.weak x
  · -- an object without references had none from the start, and never any
    intro x hx hext hzero
    have hlasting : ¬(h.refs x).Lasting := by
      unfold RefCounter.Lasting
      rw [hext, hzero]
      simpa using zero_ne_initial
    have hweak := hi.kept x hx ⟨fun hl => absurd hl hlasting, fun _ => hzero⟩
    have hstart := hw.kept x (hc.shrinks.alive hx) (by rw [← hc.shrinks.extended, hext])
    have hsum := hw.counted.weak x
    rcases hw.counted.strong x with hnever | hs
    · exact hlasting (Or.inr ((hc.dying.never x).2 hnever.1))
    · simp only [List.count_nil] at hs hsum
      omega
  · intro x
    refine ⟨fun hcb => ?_, fun hx => hc.dying.called x hx⟩
    simpa using hc.dying.callback x hcb
  · intro c hmem hx
    rw [hc.shrinks.cookie]
    exact hw.cookie c (hc.shrinks.wrcs hmem) (by
      rw [← hc.shrinks.object]
      exact hc.shrinks.alive hx)
  · intro x hx r hr
    obtain ⟨hxs, hdoomed⟩ := (hi.mem_alive hw).1 hx
    have hr : r ∈ s.members x := by
      rw [← hc.shrinks.members]
      exact hr
    have hex := (hi.exists_iff hw).2 ⟨hw.members x hxs r hr, fun ⟨y, hy, hmem, hd⟩ =>
      hdoomed (hw.owner y hy x hxs r hmem hr ▸ hd)⟩
    cases r <;> exact hex
  · intro x hx
    rw [hc.shrinks.members]
    exact hw.nodup x (hc.shrinks.alive hx)
  · intro x hx y hy r
    rw [hc.shrinks.members]
    exact hw.owner x (hc.shrinks.alive hx) y (hc.shrinks.alive hy) r

/-- If it is lost, `a` does not outlive the release. -/
theorem not_mem_releaseOld (hw : s.WellFormed) (ha : a ∈ s.sptrs) (hlost : s.Lost a (.sptr a)) :
    a ∉ (s.releaseOld a).sptrs := by
  intro hmem
  have hi : Inv s a (s.releaseOld a) [] := by
    rw [releaseOld_eq] at hmem ⊢
    refine Machine.run_invariant (I := Inv s a) (Q := fun h => a ∈ h.sptrs)
      (fun h t hq => (mem_sptrs_step.1 hq).1) ?_ (Inv.start hw ha) hmem
    intro h t ts hi hq
    exact hi.step hw (mem_sptrs_step.1 hq).2
  exact ((hi.exists_iff hw (r := .sptr a)).1 hmem).2 hlost

end Heap

end CUtils.RefBases
