import CUtils.RefBase.Counts

/-!
# Whole runs with one thread

`Counts s used`: the tally of a state is that of its pointers, and the counters have room for them.
Every operation on a smart pointer keeps it and destroys the object exactly when it takes away the
last reference that keeps the object (`Outcome`).

`bookkeeping` puts the operations of a run together.
-/

namespace CUtils.RefBases

open StateRun

variable {s s' : State} {used : Bool}

/-- The counters are those of the pointers there are. -/
structure Counts (s : State) (used : Bool) : Prop where
  tally : Tally s s.sptrs.card (wptrsOf s.wptrs s.target) used
  strong_lt : s.sptrs.card < 2 ^ 28
  weak_lt : s.sptrs.card + s.wrcs.card < 2 ^ 31
  wrc_lt : ∀ w, wptrsOf s.wptrs s.target w < 2 ^ 31

/-- The tally is of the counters; the pointers can be anything. -/
theorem Tally.withPointers {n : Nat} {f : Nat → Nat} (h : Tally s n f used) (hrefs : s'.refs = s.refs)
    (hwrcs : s'.wrcs = s.wrcs) (hwrc : s'.wrc = s.wrc) (hnext : s'.next = s.next)
    (hd : s'.destroyed = s.destroyed) (hf : s'.freed = s.freed) (he : s'.early = s.early) :
    Tally s' n f used := by
  obtain ⟨strong, unused, weak, wrc, none, fresh, early, life⟩ := h
  rw [← hrefs] at strong weak
  rw [← hwrcs] at weak wrc none fresh life
  rw [← hwrc] at wrc
  rw [← hnext] at fresh
  rw [← he] at early
  refine ⟨strong, unused, weak, wrc, none, fresh, early, ?_⟩
  cases life with
  | alive ad af ar ac ak an =>
      exact .alive (hd.trans ad) (hf.trans af) (by rw [hrefs]; exact ar) (by rw [hrefs]; exact ac)
        (by rw [hwrc]; exact ak) (by rw [hrefs]; exact an)
  | dead ad af ar ac ax au an am =>
      exact .dead (hd.trans ad) (hf.trans af) (by rw [hrefs]; exact ar) (by rw [hrefs]; exact ac)
        (by rw [hrefs]; exact ax) au an am
  | gone ad af an am => exact .gone (hd.trans ad) (hf.trans af) an am

namespace Counts

theorem target_mem (h : Counts s used) {i : Nat} (hi : i ∈ s.wptrs) : s.target i ∈ s.wrcs := by
  by_contra hnot
  exact (wptrsOf_pos hi).ne' (h.tally.none _ hnot)

/-- There are `WeakRefCounter`s exactly as long as there are `wptr`s. -/
theorem card_wrcs_eq_zero (h : Counts s used) : s.wrcs.card = 0 ↔ s.wptrs = ∅ := by
  rw [Finset.card_eq_zero]
  constructor
  · intro hnone
    refine Finset.eq_empty_of_forall_notMem fun i hi => ?_
    exact Finset.notMem_empty _ (hnone ▸ h.target_mem hi)
  · intro hnone
    refine Finset.eq_empty_of_forall_notMem fun w hw => ?_
    have hpos := (h.tally.wrc w hw).2
    rw [hnone] at hpos
    exact absurd hpos (by simp [wptrsOf])

theorem alive_of_sptr (h : Counts s used) (hsptr : s.sptrs.Nonempty) :
    s.destroyed = 0 ∧ used = true := by
  have hpos := Finset.card_pos.2 hsptr
  constructor
  · cases h.tally.life with
    | alive hd => exact hd
    | dead _ _ _ _ _ _ hn => omega
    | gone _ _ hn => omega
  · cases used with
    | true => rfl
    | false => exact absurd (h.tally.unused rfl) hpos.ne'

/-- The flag says whether there has been an `sptr`. -/
theorem flag (h : Counts s used) : (used || decide s.sptrs.Nonempty) = used := by
  by_cases hsptr : s.sptrs.Nonempty
  · rw [(h.alive_of_sptr hsptr).2]
    rfl
  · rw [decide_eq_false hsptr, Bool.or_false]

/-- With `wptr`s there, the counters say whether the object is. -/
theorem alive_iff (h : Counts s used) (hm : 0 < s.wrcs.card) :
    s.destroyed = 0 ↔ s.refs.extended = true ∨ used = false ∨ 0 < s.sptrs.card := by
  cases h.tally.life with
  | alive hd _ _ _ _ hn =>
      refine iff_of_true hd ?_
      cases hext : s.refs.extended with
      | true => exact Or.inl rfl
      | false =>
          cases used with
          | false => exact Or.inr (Or.inl rfl)
          | true => exact Or.inr (Or.inr (hn hext rfl))
  | dead hd _ _ _ hx hu hn =>
      refine iff_of_false (by omega) ?_
      rw [hx, hu, hn]
      decide
  | gone _ _ _ hnone => omega

theorem destroyed_le (h : Counts s used) : s.destroyed ≤ 1 := by
  cases h.tally.life with
  | alive hd => omega
  | dead hd => omega
  | gone hd => omega

end Counts

/-! ## The outcome of an operation -/

/-- The operation that led from `s` to `s'` took away the last reference that keeps the object: of
all, if its lifetime is extended; else the last `sptr`, or the last `wptr` if there has never been
an `sptr`. -/
def DropsLast (ever : Prop) (s s' : State) : Prop :=
  if s.refs.extended then
    (s.sptrs.Nonempty ∨ s.wptrs.Nonempty) ∧ s'.sptrs = ∅ ∧ s'.wptrs = ∅
  else
    (s.sptrs.Nonempty ∧ s'.sptrs = ∅) ∨
      (¬ ever ∧ s.wptrs.Nonempty ∧ s'.sptrs = ∅ ∧ s'.wptrs = ∅)

theorem DropsLast.sptrs {ever : Prop} (h : DropsLast ever s s') : s'.sptrs = ∅ := by
  unfold DropsLast at h
  split at h
  · exact h.2.1
  · rcases h with ⟨-, hnone⟩ | ⟨-, -, hnone, -⟩ <;> exact hnone

theorem DropsLast.wptrs {ever : Prop} (h : DropsLast ever s s') (hsame : s'.sptrs = s.sptrs) :
    s'.wptrs = ∅ := by
  have hnone := h.sptrs
  unfold DropsLast at h
  split at h
  · exact h.2.2
  · rcases h with ⟨hsome, -⟩ | ⟨-, -, -, hw⟩
    · rw [← hsame, hnone] at hsome
      exact absurd hsome Finset.not_nonempty_empty
    · exact hw

theorem not_dropsLast_self (ever : Prop) (h : s'.sptrs = s.sptrs) (hw : s'.wptrs = s.wptrs) :
    ¬ DropsLast ever s s' := by
  intro hdrop
  have hs := h.symm.trans hdrop.sptrs
  have hwptrs := hw.symm.trans (hdrop.wptrs h)
  unfold DropsLast at hdrop
  simp [hs, hwptrs] at hdrop

/-- What taking one `sptr` away means. -/
theorem dropsLast_sptr (ever : Prop) {i : Nat} (hi : i ∈ s.sptrs) (hs : s'.sptrs = s.sptrs.erase i)
    (hw : s'.wptrs = s.wptrs) :
    DropsLast ever s s' ↔ (s.sptrs.erase i).card = 0 ∧ (s.refs.extended = true → s.wptrs = ∅) := by
  have hsome : s.sptrs.Nonempty := ⟨i, hi⟩
  unfold DropsLast
  rw [hs, hw, Finset.card_eq_zero]
  cases s.refs.extended with
  | true => simp [hsome]
  | false =>
      simp only [Bool.false_eq_true, if_false, hsome, true_and, false_implies, and_true]
      exact ⟨fun h => h.elim id fun h => h.2.2.1, Or.inl⟩

structure Outcome (s s' : State) (used : Bool) : Prop where
  counts : Counts s' (used || decide s'.sptrs.Nonempty)
  extended : s'.refs.extended = s.refs.extended
  drops : DropsLast (used = true) s s' → s'.destroyed = s.destroyed + 1
  stays : ¬ DropsLast (used = true) s s' → s'.destroyed = s.destroyed

namespace Outcome

theorem same (h : Counts s used) : Outcome s s used where
  counts := by rw [h.flag]; exact h
  extended := rfl
  drops hdrop := absurd hdrop (not_dropsLast_self _ rfl rfl)
  stays _ := rfl

/-- Nothing of the kind is taken away. -/
theorem keep (hcounts : Counts s' (used || decide s'.sptrs.Nonempty))
    (hext : s'.refs.extended = s.refs.extended) (hd : s'.destroyed = s.destroyed)
    (hnot : ¬ DropsLast (used = true) s s') : Outcome s s' used :=
  ⟨hcounts, hext, fun hdrop => absurd hdrop hnot, fun _ => hd⟩

theorem of_iff (hcounts : Counts s' (used || decide s'.sptrs.Nonempty))
    (hext : s'.refs.extended = s.refs.extended) {c : Prop} [Decidable c]
    (hiff : DropsLast (used = true) s s' ↔ c)
    (hd : s'.destroyed = if c then s.destroyed + 1 else s.destroyed) : Outcome s s' used :=
  ⟨hcounts, hext, fun hdrop => hd.trans (if_pos (hiff.1 hdrop)),
    fun hnot => hd.trans (if_neg fun hc => hnot (hiff.2 hc))⟩

theorem sptr (hcounts : Counts s' true) (hsptr : s'.sptrs.Nonempty)
    (hext : s'.refs.extended = s.refs.extended) (hd : s'.destroyed = s.destroyed) :
    Outcome s s' used := by
  refine keep ?_ hext hd fun hdrop => ?_
  · rw [decide_eq_true hsptr, Bool.or_true]
    exact hcounts
  · rw [hdrop.sptrs] at hsptr
    exact Finset.not_nonempty_empty hsptr

theorem wptr (hcounts : Counts s' used) (hsame : s'.sptrs = s.sptrs) (hwptr : s'.wptrs.Nonempty)
    (hext : s'.refs.extended = s.refs.extended) (hd : s'.destroyed = s.destroyed) :
    Outcome s s' used := by
  refine keep ?_ hext hd fun hdrop => ?_
  · rw [hcounts.flag]
    exact hcounts
  · rw [hdrop.wptrs hsame] at hwptr
    exact Finset.not_nonempty_empty hwptr

end Outcome

/-! ## `sptr` -/

theorem Counts.of_tally {n : Nat} {f : Nat → Nat} (h : Tally s n f used) (hn : s.sptrs.card = n)
    (hf : wptrsOf s.wptrs s.target = f) (hstrong : n < 2 ^ 28) (hweak : n + s.wrcs.card < 2 ^ 31)
    (hwrc : ∀ w, f w < 2 ^ 31) : Counts s used := by
  subst hn hf
  exact ⟨h, hstrong, hweak, hwrc⟩

/-- A strong reference has been taken or given up, and the `sptr`s are settled. -/
theorem Counts.sptrs {q : State} {used' : Bool} {n : Nat} (h : Counts s used)
    (htally : Tally q n (wptrsOf s.wptrs s.target) used') (hframe : Frame s q) (sptrs : Finset Nat)
    (hcard : sptrs.card = n) (hn : n < 2 ^ 28) (hm : n + s.wrcs.card < 2 ^ 31) :
    Counts { q with sptrs := sptrs } used' := by
  refine of_tally (htally.withPointers rfl rfl rfl rfl rfl rfl rfl) hcard ?_ hn ?_ h.wrc_lt
  · show wptrsOf q.wptrs q.target = _
    rw [hframe.wptrs, hframe.target]
  · show _ + q.wrcs.card < _
    rw [hframe.wrcs]
    exact hm

/-- As long as there is an object, `GetRefPtr` gives it. -/
theorem Tally.getRefPtr_alive {n : Nat} {f : Nat → Nat} (h : Tally s n f used)
    (halive : s.destroyed = 0) (w : Nat) : s.getRefPtr w = (true, s) := by
  cases h.life with
  | alive _ _ _ hc hk =>
      unfold State.getRefPtr
      rw [if_neg (by simp [hc])]
      exact Prod.ext (hk w) rfl
  | dead hd => omega
  | gone hd => omega

/-- Afterwards it gives null, and the `WeakRefCounter` forgets the object. -/
theorem Tally.getRefPtr_dead {n : Nat} {f : Nat → Nat} (h : Tally s n f used)
    (hdead : s.destroyed = 1) {w : Nat} (hw : w ∈ s.wrcs) :
    ∃ q, s.getRefPtr w = (false, q) ∧ Tally q n f used ∧ Pointers s q ∧ q.wrcs = s.wrcs ∧
      q.destroyed = 1 := by
  cases h.life with
  | alive hd => omega
  | gone _ _ _ hm =>
      rw [Finset.card_eq_zero] at hm
      rw [hm] at hw
      exact absurd hw (Finset.notMem_empty w)
  | dead hd hf hr hc hx hu hn hm =>
      cases hk : (s.wrc w).cookie with
      | false =>
          refine ⟨s, ?_, h, ⟨rfl, rfl, rfl, rfl⟩, rfl, hd⟩
          unfold State.getRefPtr
          rw [if_neg (by simp [hk])]
          exact Prod.ext hk rfl
      | true =>
          refine ⟨s.setWrc w { s.wrc w with cookie := false }, ?_, ?_, ⟨rfl, rfl, rfl, rfl⟩, rfl, hd⟩
          · unfold State.getRefPtr
            rw [if_pos (by simp [hk, hc])]
            refine Prod.ext ?_ rfl
            show (Function.update s.wrc w _ w).cookie = false
            rw [Function.update_self]
          · refine ⟨h.strong, h.unused, h.weak, fun w' hw' => ?_, h.none, h.fresh, h.early,
              .dead hd hf hr hc hx hu hn hm⟩
            show (Function.update s.wrc w _ w').weak = _ ∧ _
            by_cases heq : w' = w
            · rw [heq, Function.update_self]
              exact h.wrc w hw
            · rw [Function.update_of_ne heq]
              exact h.wrc w' hw'

namespace Counts

variable {i j w : Nat}

theorem newSptr (h : Counts s used) (halive : s.destroyed = 0) (hi : i ∉ s.sptrs)
    (hn : s.sptrs.card + 1 < 2 ^ 28) (hm : s.sptrs.card + s.wrcs.card + 1 < 2 ^ 31) :
    Outcome s (s.newSptr i) used := by
  have hcard : (insert i s.sptrs).card = s.sptrs.card + 1 := Finset.card_insert_of_notMem hi
  have hstart : Tally { s with sptrs := insert i s.sptrs } s.sptrs.card
      (wptrsOf s.wptrs s.target) used := h.tally.withPointers rfl rfl rfl rfl rfl rfl rfl
  obtain ⟨htally, hframe, hd⟩ : Tally (s.newSptr i) (s.sptrs.card + 1) _ true ∧
      Frame { s with sptrs := insert i s.sptrs } (s.newSptr i) ∧ (s.newSptr i).destroyed = 0 :=
    hstart.incStrongRef halive hn hm
  have hsptrs : (s.newSptr i).sptrs = insert i s.sptrs := hframe.sptrs
  have hcounts : Counts (s.newSptr i) true := by
    refine of_tally htally (hsptrs ▸ hcard) ?_ hn ?_ h.wrc_lt
    · rw [hframe.wptrs, hframe.target]
    · rw [hframe.wrcs]
      show s.sptrs.card + 1 + s.wrcs.card < _
      omega
  exact Outcome.sptr hcounts (hsptrs ▸ ⟨i, Finset.mem_insert_self _ _⟩) hframe.extended
    (hd.trans halive.symm)

theorem copySptr (h : Counts s used) (hj : j ∉ s.sptrs)
    (hn : s.sptrs.card + 1 < 2 ^ 28) (hm : s.sptrs.card + s.wrcs.card + 1 < 2 ^ 31) :
    Outcome s (s.copySptr i j) used := by
  unfold State.copySptr
  split
  · rename_i hi
    exact h.newSptr (h.alive_of_sptr ⟨i, hi⟩).1 hj hn hm
  · exact Outcome.same h

/-- The counters do not see that an `sptr` has been moved. -/
theorem moveSptr (h : Counts s used) (hj : j ∉ s.sptrs) : Outcome s (s.moveSptr i j) used := by
  unfold State.moveSptr
  split
  · rename_i hi
    have hcard : (insert j (s.sptrs.erase i)).card = s.sptrs.card := by
      rw [Finset.card_insert_of_notMem fun hmem => hj (Finset.mem_of_mem_erase hmem),
        Finset.card_erase_add_one hi]
    obtain ⟨halive, rfl⟩ := h.alive_of_sptr ⟨i, hi⟩
    refine Outcome.sptr ?_ ⟨j, Finset.mem_insert_self _ _⟩ rfl rfl
    exact of_tally (h.tally.withPointers rfl rfl rfl rfl rfl rfl rfl) hcard rfl h.strong_lt
      h.weak_lt h.wrc_lt
  · exact Outcome.same h

/-- A strong reference is given up, and its `sptr` with it. -/
theorem clearSptr (h : Counts s used) : Outcome s (s.clearSptr i) used := by
  unfold State.clearSptr
  split
  · rename_i hi
    have hcard : (s.sptrs.erase i).card + 1 = s.sptrs.card := Finset.card_erase_add_one hi
    obtain ⟨halive, rfl⟩ := h.alive_of_sptr ⟨i, hi⟩
    have hframe := State.decStrongRef_frame s
    have hstart := h.tally
    have hlt := h.strong_lt
    have hweak := h.weak_lt
    rw [← hcard] at hstart hlt hweak
    obtain ⟨htally, hd⟩ := hstart.decStrongRef hlt hweak
    have hsptrs : (s.decStrongRef.sptrs.erase i) = s.sptrs.erase i := by rw [hframe.sptrs]
    refine Outcome.of_iff ?_ hframe.extended (dropsLast_sptr _ hi hsptrs hframe.wptrs) ?_
    · exact h.sptrs htally hframe _ (congrArg _ hsptrs) (by omega) (by omega)
    · refine hd.trans ?_
      simp only [h.card_wrcs_eq_zero, halive]
  · exact Outcome.same h

/-- The new reference is taken before the old one is given up. -/
theorem assignSptr (h : Counts s used) (hn : s.sptrs.card + 1 < 2 ^ 28)
    (hm : s.sptrs.card + s.wrcs.card + 1 < 2 ^ 31) : Outcome s (s.assignSptr i j) used := by
  unfold State.assignSptr
  split
  · rename_i hi
    obtain ⟨halive, rfl⟩ := h.alive_of_sptr ⟨i, hi⟩
    obtain ⟨htally, hframe, hd⟩ := h.tally.incStrongRef halive hn hm
    have hpos : 0 < s.sptrs.card := Finset.card_pos.2 ⟨i, hi⟩
    simp only
    rw [hframe.sptrs]
    split
    · rename_i hj
      have hframe' := hframe.trans (State.decStrongRef_frame s.incStrongRef)
      obtain ⟨htally', hd'⟩ := htally.decStrongRef hn (by rw [hframe.wrcs]; omega)
      refine Outcome.sptr ?_ ⟨j, Finset.mem_insert_self _ _⟩ hframe'.extended ?_
      · refine h.sptrs htally' hframe' _ ?_ h.strong_lt h.weak_lt
        rw [hframe'.sptrs, Finset.insert_eq_of_mem hj]
      · refine hd'.trans ?_
        rw [if_neg fun hall => hpos.ne' hall.1, halive]
    · rename_i hj
      refine Outcome.sptr ?_ ⟨j, Finset.mem_insert_self _ _⟩ hframe.extended (hd.trans halive.symm)
      refine h.sptrs htally hframe _ ?_ hn (by omega)
      rw [hframe.sptrs, Finset.card_insert_of_notMem hj]
  · exact h.clearSptr

/-! ## `promote` -/

/-- What `promote` does with a `wptr` that is not null. -/
theorem takeSptr (h : Counts s used) (hw : w ∈ s.wptrs) (hi : i ∉ s.sptrs)
    (hn : s.sptrs.card + 1 < 2 ^ 28) (hm : s.sptrs.card + s.wrcs.card + 1 < 2 ^ 31) :
    s.destroyed = 0 ∧ Counts (s.takeSptr w i true) true ∧
        (s.takeSptr w i true).sptrs = insert i s.sptrs ∧
        (s.takeSptr w i true).refs.extended = s.refs.extended ∧
        (s.takeSptr w i true).destroyed = 0 ∨
      s.destroyed = 1 ∧ s.takeSptr w i true = s := by
  unfold State.takeSptr State.wrcAttemptIncStrongRef
  rcases h.tally.attempt hn hm (h.target_mem hw) with ⟨hd, -, k, q, hq, htally, hframe, hqd⟩ |
    ⟨hd, -, -, hq⟩
  · left
    rw [hq]
    simp only
    have hcounts : Counts { q with sptrs := insert i s.sptrs } true :=
      h.sptrs htally hframe _ (Finset.card_insert_of_notMem hi) hn (by omega)
    rw [htally.getRefPtr_alive hqd]
    simp only [if_true]
    rw [hframe.sptrs]
    exact ⟨hd, hcounts, rfl, hframe.extended, hqd⟩
  · right
    rw [hq]
    exact ⟨hd, rfl⟩

theorem promote (h : Counts s used) (hi : i ∉ s.sptrs) (hn : s.sptrs.card + 1 < 2 ^ 28)
    (hm : s.sptrs.card + s.wrcs.card + 1 < 2 ^ 31) : Outcome s (s.promote w i true) used := by
  unfold State.promote
  split
  · rename_i hw
    rcases h.takeSptr hw hi hn hm with ⟨hd, hcounts, hsptrs, hext, hd'⟩ | ⟨-, hsame⟩
    · exact Outcome.sptr hcounts (hsptrs ▸ ⟨i, Finset.mem_insert_self _ _⟩) hext (hd'.trans hd.symm)
    · rw [hsame]
      exact Outcome.same h
  · exact Outcome.same h

/-- The old reference is given up before the `wptr` is looked at. -/
theorem assignWptrToSptr (h : Counts s used) (hn : s.sptrs.card + 1 < 2 ^ 28)
    (hm : s.sptrs.card + s.wrcs.card + 1 < 2 ^ 31) :
    Outcome s (s.assignWptrToSptr w i true) used := by
  have hclear : Outcome s (s.clearSptr i) used := h.clearSptr
  obtain ⟨hsptrs, hwptrs, htarget, hwrcs⟩ : (s.clearSptr i).sptrs = s.sptrs.erase i ∧
      (s.clearSptr i).wptrs = s.wptrs ∧ (s.clearSptr i).target = s.target ∧
      (s.clearSptr i).wrcs = s.wrcs := by
    unfold State.clearSptr
    split
    · have hframe := State.decStrongRef_frame s
      exact ⟨congrArg (Finset.erase · i) hframe.sptrs, hframe.wptrs, hframe.target, hframe.wrcs⟩
    · rename_i hi
      exact ⟨(Finset.erase_eq_of_notMem hi).symm, rfl, rfl, rfl⟩
  unfold State.assignWptrToSptr
  simp only
  generalize hq : s.clearSptr i = q at hclear hsptrs hwptrs htarget hwrcs ⊢
  split
  · rename_i hw
    have hi : i ∉ q.sptrs := by
      rw [hsptrs]
      exact Finset.notMem_erase i _
    have hle : q.sptrs.card ≤ s.sptrs.card := by
      rw [hsptrs]
      exact Finset.card_erase_le
    by_cases halive : q.destroyed = 0
    · rw [hclear.counts.tally.getRefPtr_alive halive]
      simp only [if_true]
      rcases hclear.counts.takeSptr hw hi (by omega) (by rw [hwrcs]; omega) with
        ⟨-, hcounts, hs, hext, hd⟩ | ⟨hd, -⟩
      · have hbefore : s.destroyed = 0 := by
          by_cases hdrop : DropsLast (used = true) s q
          · have := hclear.drops hdrop
            omega
          · exact (hclear.stays hdrop).symm.trans halive
        exact Outcome.sptr hcounts (hs ▸ ⟨i, Finset.mem_insert_self _ _⟩) (hext.trans hclear.extended)
          (hd.trans hbefore.symm)
      · omega
    · have hdead : q.destroyed = 1 := by
        have := hclear.counts.destroyed_le
        omega
      obtain ⟨p, hp, htally, hpointers, hpwrcs, hpd⟩ :=
        hclear.counts.tally.getRefPtr_dead hdead (hclear.counts.target_mem hw)
      rw [hp]
      show Outcome s p used
      have hdrops : ∀ ever, DropsLast ever s p ↔ DropsLast ever s q := by
        intro ever
        unfold DropsLast
        rw [hpointers.sptrs, hpointers.wptrs]
      refine ⟨?_, hpointers.extended.trans hclear.extended, fun hdrop => ?_, fun hdrop => ?_⟩
      · rw [hpointers.sptrs]
        refine of_tally htally ?_ ?_ hclear.counts.strong_lt ?_ hclear.counts.wrc_lt
        · rw [hpointers.sptrs]
        · rw [hpointers.wptrs, hpointers.target]
        · rw [hpwrcs]
          exact hclear.counts.weak_lt
      · exact (hpd.trans hdead.symm).trans (hclear.drops ((hdrops _).1 hdrop))
      · exact (hpd.trans hdead.symm).trans (hclear.stays fun h => hdrop ((hdrops _).2 h))
  · exact hclear

/-! ## `wptr` -/

theorem wptrsOf_update_lt {f : Nat → Nat} {c : Nat} (hf : ∀ w, f w < 2 ^ 31) (hc : c < 2 ^ 31)
    (w' : Nat) : Function.update f w c w' < 2 ^ 31 := by
  by_cases heq : w' = w
  · rw [heq, Function.update_self]
    exact hc
  · rw [Function.update_of_ne heq]
    exact hf w'

theorem card_wrcs_le {q p : State} {c : Prop} [Decidable c]
    (h : p.wrcs = if c then q.wrcs.erase w else q.wrcs) : p.wrcs.card ≤ q.wrcs.card := by
  rw [h]
  split
  · exact Finset.card_erase_le
  · exact le_rfl

/-- The `WeakRefCounter` `w` has one more, for the `wptr` `j`; if `j` had one, that gives it up. -/
theorem settle (h : Counts s used) {q : State} (htally : Tally q s.sptrs.card
      (Function.update (wptrsOf s.wptrs s.target) w (wptrsOf s.wptrs s.target w + 1)) used)
    (hp : Pointers s q) (hd : q.destroyed = s.destroyed) (hsub : s.wrcs ⊆ q.wrcs)
    (hm : s.sptrs.card + q.wrcs.card < 2 ^ 31) (hlt : wptrsOf s.wptrs s.target w + 1 < 2 ^ 31)
    (j : Nat) {p : State} (hif : p = if j ∈ s.wptrs then q.wrcDecWeakRefCount (q.target j) else q) :
    Outcome s { p with wptrs := insert j p.wptrs, target := Function.update p.target j w } used := by
  have hone := wptrsOf_update_lt h.wrc_lt hlt (w := w)
  have hwptr : (insert j p.wptrs).Nonempty := ⟨j, Finset.mem_insert_self _ _⟩
  by_cases hj : j ∈ s.wptrs
  · rw [if_pos hj, hp.target] at hif
    have hmem : s.target j ∈ q.wrcs := hsub (h.target_mem hj)
    have hw : w ∈ q.wrcs := by
      by_contra hnot
      have := htally.none w hnot
      rw [Function.update_self] at this
      omega
    obtain ⟨htally', hwrcs, hd'⟩ := htally.wrcDec hmem h.strong_lt hm (hone _)
    have hp' := wrcDecWeakRefCount_pointers q (s.target j)
    rw [← hif] at htally' hwrcs hd' hp'
    have hpw : p.wptrs = s.wptrs := hp'.wptrs.trans hp.wptrs
    have hpt : p.target = s.target := hp'.target.trans hp.target
    refine Outcome.wptr ?_ (hp'.sptrs.trans hp.sptrs) hwptr (hp'.extended.trans hp.extended) ?_
    · refine of_tally (htally'.withPointers rfl rfl rfl rfl rfl rfl rfl)
        (congrArg _ (hp'.sptrs.trans hp.sptrs)) ?_ h.strong_lt ?_ (wptrsOf_update_lt hone ?_)
      · show wptrsOf (insert j p.wptrs) (Function.update p.target j w) = _
        rw [hpw, hpt, wptrsOf_update hj]
      · show _ + p.wrcs.card < _
        have hle := card_wrcs_le hwrcs
        omega
      · exact (Nat.sub_le _ _).trans_lt (hone _)
    · refine hd'.trans ((if_neg ?_).trans hd)
      -- two different `WeakRefCounter`s, or two `wptr`s with one
      rintro ⟨-, hcard, hlast⟩
      have hpos : 0 < wptrsOf s.wptrs s.target (s.target j) := wptrsOf_pos hj
      have hsame : s.target j = w :=
        Finset.card_le_one.1 (by omega) _ hmem _ hw
      rw [hsame] at hlast hpos
      rw [Function.update_self] at hlast
      omega
  · rw [if_neg hj] at hif
    subst hif
    refine Outcome.wptr ?_ hp.sptrs hwptr hp.extended hd
    refine of_tally (htally.withPointers rfl rfl rfl rfl rfl rfl rfl) (congrArg _ hp.sptrs) ?_
      h.strong_lt hm hone
    show wptrsOf (insert j p.wptrs) (Function.update p.target j w) = _
    rw [hp.wptrs, hp.target, wptrsOf_insert hj]

/-- The `wptr` `j` gets a new `WeakRefCounter`. -/
theorem createWeakRef (h : Counts s used) (halive : s.destroyed = 0)
    (hm : s.sptrs.card + s.wrcs.card + 2 < 2 ^ 31) (j : Nat) {p : State}
    (hif : p = if j ∈ s.wptrs then (s.createWeakRef.wrcIncWeakRefCount s.next).wrcDecWeakRefCount
        ((s.createWeakRef.wrcIncWeakRefCount s.next).target j)
      else s.createWeakRef.wrcIncWeakRefCount s.next) :
    Outcome s { p with wptrs := insert j p.wptrs, target := Function.update p.target j s.next } used := by
  have hnext : s.next ∉ s.wrcs := fun hmem => (h.tally.fresh _ hmem).false
  have hnone : wptrsOf s.wptrs s.target s.next = 0 := h.tally.none _ hnext
  refine h.settle ?_ (createWeakRef_pointers s) ?_ ?_ ?_ (by omega) j hif
  · rw [hnone]
    exact h.tally.newWrc halive hm
  · rw [createWeakRef_eq]
  · rw [createWeakRef_eq]
    exact Finset.subset_insert _ _
  · rw [createWeakRef_eq]
    show _ + (insert s.next s.wrcs).card < _
    rw [Finset.card_insert_of_notMem hnext]
    omega

theorem newWptr (h : Counts s used) (halive : s.destroyed = 0) (hi : i ∉ s.wptrs)
    (hm : s.sptrs.card + s.wrcs.card + 2 < 2 ^ 31) : Outcome s (s.newWptr i) used :=
  h.createWeakRef halive hm i (if_neg hi).symm

theorem assignSptrToWptr (h : Counts s used) (halive : s.destroyed = 0)
    (hm : s.sptrs.card + s.wrcs.card + 2 < 2 ^ 31) : Outcome s (s.assignSptrToWptr j) used := by
  refine h.createWeakRef halive hm j ?_
  rw [(createWeakRef_pointers s).wptrs]

/-- The `wptr` `j` gets the `WeakRefCounter` of `i`. -/
theorem shareWrc (h : Counts s used) (hi : i ∈ s.wptrs)
    (hlt : wptrsOf s.wptrs s.target (s.target i) + 1 < 2 ^ 31) (j : Nat) {p : State}
    (hif : p = if j ∈ s.wptrs then (s.wrcIncWeakRefCount (s.target i)).wrcDecWeakRefCount
        ((s.wrcIncWeakRefCount (s.target i)).target j)
      else s.wrcIncWeakRefCount (s.target i)) :
    Outcome s { p with wptrs := insert j p.wptrs, target := Function.update p.target j (s.target i) }
      used := by
  obtain ⟨htally, heq⟩ := h.tally.wrcInc (h.target_mem hi) hlt
  refine h.settle htally (wrcIncWeakRefCount_pointers s _) ?_ ?_ ?_ hlt j hif
  · rw [heq]
    rfl
  · rw [heq]
    exact Finset.Subset.refl _
  · rw [heq]
    exact h.weak_lt

theorem copyWptr (h : Counts s used) (hj : j ∉ s.wptrs)
    (hlt : wptrsOf s.wptrs s.target (s.target i) + 1 < 2 ^ 31) : Outcome s (s.copyWptr i j) used := by
  unfold State.copyWptr
  split
  · rename_i hi
    exact h.shareWrc hi hlt j (if_neg hj).symm
  · exact Outcome.same h

/-- What taking one `wptr` away means. -/
theorem dropsLast_wptr (h : Counts s used) (hcounts : Counts s' used) (hi : i ∈ s.wptrs)
    (hs : s'.sptrs = s.sptrs) (hwrcs : s'.wrcs =
      if wptrsOf s.wptrs s.target (s.target i) = 1 then s.wrcs.erase (s.target i) else s.wrcs) :
    DropsLast (used = true) s s' ↔ s.destroyed = 0 ∧ s.sptrs.card + s.wrcs.card = 1 ∧
      wptrsOf s.wptrs s.target (s.target i) = 1 := by
  have hpos : 0 < s.wrcs.card := Finset.card_pos.2 ⟨_, h.target_mem hi⟩
  have hlast : s'.wptrs = ∅ ↔ s.wrcs.card = 1 ∧ wptrsOf s.wptrs s.target (s.target i) = 1 := by
    rw [← hcounts.card_wrcs_eq_zero, hwrcs]
    split
    · rename_i hone
      rw [Finset.card_erase_of_mem (h.target_mem hi)]
      omega
    · rename_i hmore
      omega
  have hsptrs : s.sptrs = ∅ ↔ s.sptrs.card = 0 := Finset.card_eq_zero.symm
  have hsome : s.wptrs.Nonempty := ⟨i, hi⟩
  have hnonempty : s.sptrs.Nonempty ↔ 0 < s.sptrs.card := Finset.card_pos.symm
  have halive := h.alive_iff hpos
  unfold DropsLast
  rw [hs, hlast, hsptrs, hnonempty]
  cases hext : s.refs.extended with
  | true =>
      have hd := halive.2 (Or.inl hext)
      simp only [if_true, hd, true_and]
      refine ⟨fun hall => ⟨by omega, hall.2.2.2⟩, fun hall => ⟨Or.inr hsome, by omega, by omega, hall.2⟩⟩
  | false =>
      rw [hext] at halive
      rw [if_neg nofun]
      constructor
      · rintro (⟨hpos, hzero⟩ | ⟨hunused, -, hzero, hone, hlast⟩)
        · omega
        · exact ⟨halive.2 (Or.inr (Or.inl (Bool.eq_false_iff.2 hunused))), by omega, hlast⟩
      · rintro ⟨hd, hsum, hlast⟩
        have hzero : s.sptrs.card = 0 := by omega
        rcases halive.1 hd with hfalse | hunused | hsptr
        · cases hfalse
        · exact Or.inr ⟨Bool.eq_false_iff.1 hunused, hsome, hzero, by omega, hlast⟩
        · omega

theorem dropWptr (h : Counts s used) : Outcome s (s.dropWptr i) used := by
  unfold State.dropWptr
  split
  · rename_i hi
    obtain ⟨htally, hwrcs, hd⟩ :=
      h.tally.wrcDec (h.target_mem hi) h.strong_lt h.weak_lt (h.wrc_lt _)
    have hp := wrcDecWeakRefCount_pointers s (s.target i)
    simp only
    generalize s.wrcDecWeakRefCount (s.target i) = p at htally hwrcs hd hp ⊢
    have hcounts : Counts { p with wptrs := p.wptrs.erase i } used := by
      refine of_tally (htally.withPointers rfl rfl rfl rfl rfl rfl rfl) (congrArg _ hp.sptrs) ?_
        h.strong_lt ?_ (wptrsOf_update_lt h.wrc_lt ?_)
      · show wptrsOf (p.wptrs.erase i) p.target = _
        rw [hp.wptrs, hp.target, wptrsOf_erase hi]
      · show _ + p.wrcs.card < _
        have hle := card_wrcs_le hwrcs
        have hlt := h.weak_lt
        omega
      · exact (Nat.sub_le _ _).trans_lt (h.wrc_lt _)
    refine Outcome.of_iff ?_ hp.extended (h.dropsLast_wptr hcounts hi hp.sptrs hwrcs) ?_
    · rw [hcounts.flag]
      exact hcounts
    · refine hd.trans ?_
      split
      · rename_i hall
        rw [hall.1]
      · rfl
  · exact Outcome.same h

theorem assignWptr (h : Counts s used)
    (hlt : wptrsOf s.wptrs s.target (s.target i) + 1 < 2 ^ 31) :
    Outcome s (s.assignWptr i j) used := by
  unfold State.assignWptr
  split
  · rename_i hi
    refine h.shareWrc hi hlt j ?_
    rw [(wrcIncWeakRefCount_pointers s _).wptrs]
  · exact h.dropWptr

end Counts

/-! ## Runs -/

/-- What a program can do: a pointer is constructed where there is none, from the object itself
only while it lives; `CanPromote` is that of `RefBase`. -/
def Op.Possible (s : State) : Op → Prop
  | .newSptr i => i ∉ s.sptrs ∧ s.destroyed = 0
  | .copySptr _ j | .moveSptr _ j => j ∉ s.sptrs
  | .promote _ i canPromote => i ∉ s.sptrs ∧ canPromote = true
  | .assignWptrToSptr _ _ canPromote => canPromote = true
  | .newWptr i => i ∉ s.wptrs ∧ s.destroyed = 0
  | .copyWptr _ j => j ∉ s.wptrs
  | .assignSptrToWptr _ => s.destroyed = 0
  | .clearSptr _ | .assignSptr _ _ | .dropWptr _ | .assignWptr _ _ => True
  | .attemptAcquire _ | .attemptIncStrongRef _ _ | .checkIsAttemptAcquireSet | .decStrongRef => False

/-- The counters have room for one more reference: the strong count stays below its initial value,
the others are an `int`. -/
def Op.Fits (s : State) : Op → Prop
  | .newSptr _ | .copySptr _ _ | .assignSptr _ _ | .promote _ _ _ | .assignWptrToSptr _ _ _ =>
      s.sptrs.card + 1 < 2 ^ 28 ∧ s.sptrs.card + s.wrcs.card + 1 < 2 ^ 31
  | .newWptr _ | .assignSptrToWptr _ => s.sptrs.card + s.wrcs.card + 2 < 2 ^ 31
  | .copyWptr i _ | .assignWptr i _ => wptrsOf s.wptrs s.target (s.target i) + 1 < 2 ^ 31
  | _ => True

/-- **Every operation keeps the counts.** -/
theorem Counts.step (h : Counts s used) {op : Op} (hpossible : op.Possible s) (hfits : op.Fits s) :
    Outcome s (s.step op) used := by
  cases op with
  | newSptr i => exact h.newSptr hpossible.2 hpossible.1 hfits.1 hfits.2
  | copySptr i j => exact h.copySptr hpossible hfits.1 hfits.2
  | moveSptr i j => exact h.moveSptr hpossible
  | clearSptr i => exact h.clearSptr
  | assignSptr i j => exact h.assignSptr hfits.1 hfits.2
  | promote w i canPromote =>
      obtain ⟨hi, rfl⟩ := hpossible
      exact h.promote hi hfits.1 hfits.2
  | assignWptrToSptr w i canPromote =>
      obtain rfl := hpossible
      exact h.assignWptrToSptr hfits.1 hfits.2
  | newWptr i => exact h.newWptr hpossible.2 hpossible.1 hfits
  | copyWptr i j => exact h.copyWptr hpossible hfits
  | dropWptr i => exact h.dropWptr
  | assignWptr i j => exact h.assignWptr hfits
  | assignSptrToWptr j => exact h.assignSptrToWptr hpossible hfits
  | attemptAcquire canPromote => exact hpossible.elim
  | attemptIncStrongRef promoted canPromote => exact hpossible.elim
  | checkIsAttemptAcquireSet => exact hpossible.elim
  | decStrongRef => exact hpossible.elim

theorem counts_new (extended : Bool) : Counts (State.new extended) false where
  tally := {
    strong := rfl
    unused := fun _ => rfl
    weak := rfl
    wrc := fun w hw => absurd hw (Finset.notMem_empty w)
    none := fun _ _ => rfl
    fresh := fun w hw => absurd hw (Finset.notMem_empty w)
    early := rfl
    life := .alive rfl rfl (show int32 (0 + 1) = ((0 : Nat) : Int) + 1 by decide) rfl (fun _ => rfl) nofun }
  strong_lt := show 0 < 2 ^ 28 by decide
  weak_lt := show 0 + 0 < 2 ^ 31 by decide
  wrc_lt w := show 0 < 2 ^ 31 by decide

/-- There has been an `sptr`. -/
def EverStrong (extended : Bool) (ops : List Op) : Prop :=
  ∃ pre, pre <+: ops ∧ ((State.new extended).run pre).sptrs.Nonempty

theorem everStrong_concat (extended : Bool) (ops : List Op) (op : Op) :
    EverStrong extended (ops ++ [op]) ↔
      EverStrong extended ops ∨ ((State.new extended).run (ops ++ [op])).sptrs.Nonempty := by
  constructor
  · rintro ⟨pre, hpre, hsome⟩
    rcases List.prefix_concat_iff.1 hpre with rfl | hprev
    · exact Or.inr hsome
    · exact Or.inl ⟨pre, hprev, hsome⟩
  · rintro (⟨pre, hpre, hsome⟩ | hsome)
    · exact ⟨pre, hpre.trans (List.prefix_append _ _), hsome⟩
    · exact ⟨_, List.prefix_rfl, hsome⟩

theorem run_concat (s : State) (ops : List Op) (op : Op) :
    s.run (ops ++ [op]) = (s.run ops).step op := by
  unfold State.run
  rw [List.foldl_append]
  rfl

section Runs

variable (extended : Bool) {ops : List Op}

theorem counts_run
    (h : Along (fun s op => op.Possible s ∧ op.Fits s) State.step (State.new extended) ops) :
    ∃ used, (used = true ↔ EverStrong extended ops) ∧ Counts ((State.new extended).run ops) used := by
  induction ops using List.reverseRecOn with
  | nil =>
      refine ⟨false, iff_of_false nofun ?_, counts_new extended⟩
      rintro ⟨pre, hpre, hsome⟩
      rw [List.prefix_nil.1 hpre] at hsome
      exact Finset.not_nonempty_empty hsome
  | append_singleton ops op ih =>
      obtain ⟨hops, hop, -⟩ := Along.append.1 h
      obtain ⟨used, hused, hcounts⟩ := ih hops
      have hout := hcounts.step hop.1 hop.2
      rw [← run_concat] at hout
      refine ⟨_, ?_, hout.counts⟩
      rw [everStrong_concat, Bool.or_eq_true, decide_eq_true_iff, hused]

/-- The documented counts, and what becomes of the object and of its `RefCounter`. -/
structure Bookkept (ops : List Op) : Prop where
  strong : EverStrong extended ops →
    ((State.new extended).run ops).refs.strong = ((State.new extended).run ops).sptrs.card
  never : ¬ EverStrong extended ops →
    ((State.new extended).run ops).refs.strong = initialPrimaryValue
  weak : ((State.new extended).run ops).refs.weak =
    ((State.new extended).run ops).sptrs.card + ((State.new extended).run ops).wrcs.card
  /-- The base reference goes with the object and the last `wptr`. -/
  refCount : ((State.new extended).run ops).destroyed = 0 ∨
      ((State.new extended).run ops).wptrs.Nonempty →
    ((State.new extended).run ops).refs.refCount = ((State.new extended).run ops).wrcs.card + 1
  destroyed_le : ((State.new extended).run ops).destroyed ≤ 1
  destroys : ∀ pre op, pre ++ [op] <+: ops →
    (((State.new extended).run (pre ++ [op])).destroyed = ((State.new extended).run pre).destroyed + 1 ↔
      DropsLast (EverStrong extended pre) ((State.new extended).run pre)
        ((State.new extended).run (pre ++ [op])))
  promotes : ∀ pre w i, pre ++ [.promote w i true] <+: ops →
    w ∈ ((State.new extended).run pre).wptrs →
    (i ∈ ((State.new extended).run (pre ++ [.promote w i true])).sptrs ↔
      ((State.new extended).run pre).destroyed = 0)
  freed_le : ((State.new extended).run ops).freed ≤ 1
  /-- The `RefCounter` is never deleted before the destructor has run. -/
  late : ((State.new extended).run ops).early = 0

/-- **Reference-count bookkeeping.** -/
theorem bookkeeping
    (h : Along (fun s op => op.Possible s ∧ op.Fits s) State.step (State.new extended) ops) :
    Bookkept extended ops := by
  have hpre : ∀ pre op, pre ++ [op] <+: ops → ∃ used, (used = true ↔ EverStrong extended pre) ∧
      Counts ((State.new extended).run pre) used ∧ op.Possible ((State.new extended).run pre) ∧
      op.Fits ((State.new extended).run pre) := by
    rintro pre op ⟨post, rfl⟩
    obtain ⟨hsome, hop, -⟩ := Along.append.1 (Along.append.1 h).1
    obtain ⟨used, hused, hcounts⟩ := counts_run extended hsome
    exact ⟨used, hused, hcounts, hop⟩
  obtain ⟨used, hused, hcounts⟩ := counts_run extended h
  have hlife := hcounts.tally.life
  refine ⟨fun hever => ?_, fun hnever => ?_, hcounts.tally.weak, fun hbase => ?_, hcounts.destroyed_le,
    fun pre op hprefix => ?_, fun pre w i hprefix hw => ?_, ?_, hcounts.tally.early⟩
  · rw [hcounts.tally.strong, if_pos (hused.2 hever)]
  · rw [hcounts.tally.strong, if_neg fun htrue => hnever (hused.1 htrue)]
  · cases hlife with
    | alive _ _ hr => exact hr
    | dead _ _ hr => exact hr
    | gone hd _ _ hm =>
        rcases hbase with hzero | hsome
        · omega
        · rw [hcounts.card_wrcs_eq_zero.1 hm] at hsome
          exact absurd hsome Finset.not_nonempty_empty
  · obtain ⟨used, hused, hcounts, hpossible, hfits⟩ := hpre pre op hprefix
    have hout := hcounts.step hpossible hfits
    rw [run_concat, ← propext hused]
    constructor
    · intro hup
      by_contra hnot
      have := hout.stays hnot
      omega
    · exact hout.drops
  · obtain ⟨used, hused, hcounts, ⟨hi, -⟩, hfits⟩ := hpre pre _ hprefix
    have hstep : ((State.new extended).run pre).step (.promote w i true) =
        ((State.new extended).run pre).takeSptr w i true := if_pos hw
    rw [run_concat, hstep]
    rcases hcounts.takeSptr hw hi hfits.1 hfits.2 with ⟨hd, -, hsptrs, -⟩ | ⟨hd, hsame⟩
    · rw [hsptrs]
      exact iff_of_true (Finset.mem_insert_self _ _) hd
    · rw [hsame]
      exact iff_of_false hi (by omega)
  · cases hlife with
    | alive _ hf => omega
    | dead _ hf => omega
    | gone _ hf => omega

end Runs

/-- The last `sptr` goes while there is a `wptr`, which no longer gives one. -/
theorem bookkeeping_expired :
    Along (fun s op => op.Possible s ∧ op.Fits s) State.step (State.new false)
        [.newSptr 0, .newWptr 0, .copyWptr 0 1, .clearSptr 0, .promote 1 1 true, .dropWptr 0] ∧
      Bookkept false
        [.newSptr 0, .newWptr 0, .copyWptr 0 1, .clearSptr 0, .promote 1 1 true, .dropWptr 0] := by
  have halong : Along (fun s op => op.Possible s ∧ op.Fits s) State.step (State.new false)
      [.newSptr 0, .newWptr 0, .copyWptr 0 1, .clearSptr 0, .promote 1 1 true, .dropWptr 0] := by
    refine ⟨⟨⟨?_, rfl⟩, ?_, ?_⟩, ⟨⟨?_, rfl⟩, show (_ : Nat) < _ from ?_⟩,
      ⟨show _ ∉ (_ : Finset Nat) from ?_, show (_ : Nat) < _ from ?_⟩, ⟨trivial, trivial⟩,
      ⟨⟨?_, rfl⟩, ?_, ?_⟩, ⟨trivial, trivial⟩, trivial⟩
    all_goals decide +kernel
  exact ⟨halong, bookkeeping false halong⟩

/-! ## Too many `sptr`s -/

theorem newSptr_strong {i : Nat} (hlo : 0 ≤ s.refs.strong) (hhi : s.refs.strong ≤ initialPrimaryValue) :
    (s.newSptr i).refs.strong =
        (if s.refs.strong = initialPrimaryValue then 1 else s.refs.strong + 1) ∧
      (s.newSptr i).sptrs = insert i s.sptrs ∧ (s.newSptr i).destroyed = s.destroyed := by
  obtain ⟨k, hk⟩ := incStrongRef_eq (s := { s with sptrs := insert i s.sptrs }) hlo hhi
  unfold State.newSptr
  rw [hk]
  exact ⟨rfl, rfl, rfl⟩

/-- `n` `sptr`s, one after the other. -/
def newSptrs (n : Nat) : List Op := (List.range n).map .newSptr

theorem newSptrs_succ (n : Nat) : newSptrs (n + 1) = newSptrs n ++ [.newSptr n] := by
  unfold newSptrs
  rw [List.range_succ, List.map_append]
  rfl

/-- The count is right up to the initial value. -/
theorem newSptrs_strong (n : Nat) (hn : (n : Int) + 1 ≤ initialPrimaryValue) :
    ((State.new false).run (newSptrs (n + 1))).refs.strong = n + 1 ∧
      ((State.new false).run (newSptrs (n + 1))).sptrs = Finset.range (n + 1) ∧
      ((State.new false).run (newSptrs (n + 1))).destroyed = 0 := by
  induction n with
  | zero =>
      rw [newSptrs_succ, run_concat]
      obtain ⟨hstrong, hsptrs, hd⟩ := newSptr_strong (s := State.new false) (i := 0)
        (show 0 ≤ initialPrimaryValue by decide) (show initialPrimaryValue ≤ initialPrimaryValue from le_rfl)
      exact ⟨hstrong, hsptrs, hd⟩
  | succ n ih =>
      obtain ⟨ihstrong, ihsptrs, ihd⟩ := ih (by push_cast at hn; omega)
      rw [newSptrs_succ, run_concat]
      obtain ⟨hstrong, hsptrs, hd⟩ := newSptr_strong (i := n + 1)
        (s := (State.new false).run (newSptrs (n + 1))) (by omega) (by push_cast at hn; omega)
      rw [ihstrong, if_neg (by push_cast at hn; omega)] at hstrong
      refine ⟨hstrong, ?_, hd.trans ihd⟩
      refine hsptrs.trans ?_
      rw [ihsptrs]
      exact Finset.range_add_one.symm

theorem newSptrs_possible (n : Nat) (hn : (n : Int) ≤ initialPrimaryValue) :
    Along (fun s op => op.Possible s) State.step (State.new false) (newSptrs (n + 1)) := by
  induction n with
  | zero => exact ⟨⟨Finset.notMem_empty 0, rfl⟩, trivial⟩
  | succ n ih =>
      obtain ⟨-, hsptrs, hd⟩ := newSptrs_strong n (by push_cast at hn; omega)
      rw [newSptrs_succ]
      refine Along.append.2 ⟨ih (by push_cast at hn; omega), ⟨?_, hd⟩, trivial⟩
      show n + 1 ∉ ((State.new false).run (newSptrs (n + 1))).sptrs
      rw [hsptrs]
      exact Finset.notMem_range_self

/-- One `sptr` more than the initial value, and the count starts again. -/
theorem newSptrs_over (n : Nat) (hn : (n : Int) + 1 = initialPrimaryValue) :
    Along (fun s op => op.Possible s) State.step (State.new false) (newSptrs (n + 2)) ∧
      ¬ Bookkept false (newSptrs (n + 2)) := by
  refine ⟨newSptrs_possible (n + 1) (by push_cast; omega), fun hkept => ?_⟩
  obtain ⟨hstrong, hsptrs, -⟩ := newSptrs_strong n hn.le
  obtain ⟨hover, hmore, -⟩ := newSptr_strong (i := n + 1)
    (s := (State.new false).run (newSptrs (n + 1))) (by omega) (by omega)
  have hcard : ((State.new false).run (newSptrs (n + 2))).sptrs.card = n + 2 := by
    rw [newSptrs_succ, run_concat]
    refine (congrArg Finset.card hmore).trans ?_
    rw [hsptrs, ← Finset.range_add_one, Finset.card_range]
  have hever : EverStrong false (newSptrs (n + 2)) := by
    refine ⟨_, List.prefix_rfl, Finset.card_pos.1 ?_⟩
    omega
  have heq := hkept.strong hever
  rw [hcard, newSptrs_succ, run_concat] at heq
  have hone := hover.symm.trans heq
  rw [hstrong, if_pos hn] at hone
  omega

theorem counts_overflow : ¬ ∀ extended ops,
    Along (fun s op => op.Possible s) State.step (State.new extended) ops → Bookkept extended ops := by
  intro hall
  obtain ⟨n, hn⟩ : ∃ n : Nat, (n : Int) + 1 = initialPrimaryValue :=
    ⟨initialPrimaryValue.toNat - 1, by unfold initialPrimaryValue; omega⟩
  obtain ⟨hpossible, hnot⟩ := newSptrs_over n hn
  exact hnot (hall false _ hpossible)

end CUtils.RefBases
