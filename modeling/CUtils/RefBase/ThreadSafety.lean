import Mathlib.Tactic.IntervalCases
import CUtils.RefBase.Order

/-!
# Reference counting under threads is safe

`Inv` holds in every state that the threads reach, in any order of their steps, as long as the
counters can hold the references there are (`Inv.run`): there is a sound ledger that the counters
agree with, and the threads are orderly. What it says of the object is `threads_safe`.

The bound on the strong references is the initial value of the strong count. A count that grows to it
looks as if there never was a strong reference: the next one takes it down to one
(`too_many_sptrs`).
-/

namespace CUtils.RefBases.Threads

variable {ι : Type} [Fintype ι] [DecidableEq ι]

variable {s : State ι} {l : Ledger} {t u : ι}

def Inv (s : State ι) : Prop := ∃ l : Ledger, l.Sound ∧ Agrees s l ∧ Orderly s

/-! ## Going on -/

theorem Agrees.go (h : Agrees s l) (hl : l.Sound) (ho : Orderly s) (hw : s.Within)
    {spurious canPromote : Bool} (hwithin : (s.go t spurious canPromote).Within) :
    Follows l (s.go t spurious canPromote) := by
  have hvalid := ho.valid t
  unfold State.Valid at hvalid
  cases hpc : (s.threads t).pc with
  | idle =>
      simp only [State.go, hpc]
      exact ⟨l, .stay, h⟩
  | incWeak => exact h.go_incWeak hl ho hpc hwithin
  | incLoad => exact h.go_incLoad hpc hwithin
  | incAdd => exact h.go_incAdd hl ho hw hpc hwithin
  | incSub => exact h.go_incSub hl hpc hwithin
  | incFlags => exact h.go_incFlags hpc
  | decLoad => exact h.go_decLoad hl hw hpc hwithin
  | decSub => exact h.go_decSub hl hpc hwithin
  | decFlags => exact h.go_decFlags hpc hwithin
  | decCallback => exact h.go_decCallback hl hpc hwithin
  | removeCallback k => exact h.go_removeCallback hl hpc hwithin
  | destructorFlags k => exact h.go_destructorFlags hpc hwithin
  | destructorWeak k =>
      rw [hpc] at hvalid
      exact hvalid.elim
  | destructorStrong k => exact h.go_destructorStrong hl hw hpc hwithin
  | weakLoad k => exact h.go_weakLoad hpc hwithin
  | weakSub k => exact h.go_weakSub hpc hwithin
  | weakFlags k => exact h.go_weakFlags hpc hwithin
  | weakStrong k => exact h.go_weakStrong hl hw hpc hwithin
  | weakCallback k => exact h.go_weakCallback hl hpc hwithin
  | refLoad r => exact h.go_refLoad hl ho hpc hwithin
  | refSub r => exact h.go_refSub hl ho hpc hwithin
  | attemptLoad w => exact h.go_attemptLoad hpc hwithin
  | attemptWeak w curCount => exact h.go_attemptWeak ho hpc hwithin
  | attemptExchange w curCount => exact h.go_attemptExchange hl ho hw hpc hwithin
  | attemptReload w => exact h.go_attemptReload hpc hwithin
  | attemptNormal w curCount => exact h.go_attemptNormal hpc hwithin
  | attemptFirstExchange w curCount => exact h.go_attemptFirstExchange hl ho hw hpc hwithin
  | attemptFirstReload w => exact h.go_attemptFirstReload hpc hwithin
  | attemptExtended w curCount => exact h.go_attemptExtended ho hpc hwithin
  | attemptAdd w =>
      rw [hpc] at hvalid
      exact hvalid.elim
  | attemptSub w => exact h.go_attemptSub hl hpc hwithin
  | attemptEnd w curCount => exact h.go_attemptEnd ho hpc hwithin
  | attemptPtr w =>
      rw [State.go_attemptPtr h hl ho hpc]
      exact ⟨l, .stay, h.addSptr (by rw [hpc]; rfl) (by rw [hpc]; rfl)⟩
  | newRef => exact h.go_newRef hl ho hpc hwithin
  | newAdd c => exact h.go_newAdd ho hpc hwithin
  | newWeak c => exact h.go_newWeak hl ho hpc hwithin
  | copyAdd w => exact h.go_copyAdd ho hpc
  | copyWeak w =>
      rw [hpc] at hvalid
      exact hvalid.elim
  | dropSub w => exact h.go_dropSub ho hpc hwithin

theorem Inv.go (h : Inv s) (hw : s.Within) {spurious canPromote : Bool}
    (hwithin : (s.go t spurious canPromote).Within) : Inv (s.go t spurious canPromote) := by
  obtain ⟨l, hl, hagrees, ho⟩ := h
  obtain ⟨l', hmove, hagrees'⟩ := hagrees.go hl ho hw hwithin
  exact ⟨l', hl.move hmove, hagrees', ho.go hagrees hl hw hwithin⟩

/-! ## Beginning something -/

/-- An idle thread takes a first step, or a pointer into its first step. -/
theorem Inv.begin {x : Local} (h : Inv s) (hidle : (s.threads t).pc = .idle)
    (hne : s.MayUse t ∨ s.threads t ≠ {}) (hcount : ∀ r, x.count r = (s.threads t).count r)
    (hrefs : x.pc.refs = 0) (hheld : ∀ w, x.held w = (s.threads t).held w)
    (hvalid : (s.setThread t x).Valid t) : Inv (s.setThread t x) := by
  obtain ⟨l, hl, hagrees, ho⟩ := h
  refine ⟨l, hl, hagrees.setThread rfl rfl hagrees.numbers hcount (by rw [hrefs, hidle]; rfl),
    ho.setThread Counters.update ?_ hheld hvalid⟩
  intro hshared
  rcases hne with (hsptrs | hraw) | hne
  · exact ho.owner (fun heq => by rw [heq] at hsptrs; exact Nat.lt_irrefl 0 hsptrs) hshared
  · exact hraw.1
  · exact ho.owner hne hshared

/-- It keeps its pointers. -/
theorem Inv.begin_goto {pc' : Pc} (h : Inv s) (hidle : (s.threads t).pc = .idle)
    (hne : s.MayUse t ∨ s.threads t ≠ {}) (hrole : pc'.role = none) (hrefs : pc'.refs = 0)
    (hwork : pc'.AtWork) (hvalid : pc'.Valid (s.MayUse t) (s.threads t).wptrs) :
    Inv (s.goto t pc') := by
  refine h.begin hidle hne (fun r => ?_) hrefs (fun w => ?_) (valid_goto.2 hvalid)
  · have hnone : Pc.idle.role = none := rfl
    simp only [Local.count, hidle, hrole, hnone]
  · rw [Pc.AtWork.held (Or.inl hwork), Pc.AtWork.held (Or.inr hidle)]

theorem Agrees.give {x y : Local} (h : Agrees s l) (hrefs : x.pc.refs = (s.threads t).pc.refs)
    (hrefs' : y.pc.refs = ((s.setThread t x).threads u).pc.refs)
    (hcount : ∀ r, x.count r + y.count r =
      (s.threads t).count r + ((s.setThread t x).threads u).count r) :
    Agrees ({ s.setThread t x with shared := true }.setThread u y) l := by
  have hn := h.numbers
  refine ⟨fun r => ?_, ?_,
    ⟨hn.strong, hn.weak, hn.refCount, hn.extended, hn.callback, hn.invoked, hn.freed⟩⟩
  · have hset := count_setThread s t x r
    have hset' : ({ s.setThread t x with shared := true }.setThread u y).count r +
        ((s.setThread t x).threads u).count r = (s.setThread t x).count r + y.count r :=
      count_setThread _ u y r
    have hr := hcount r
    have hl := h.count r
    omega
  · have hset := counterRefs_setThread s t x
    have hset' : ({ s.setThread t x with shared := true }.setThread u y).counterRefs +
        ((s.setThread t x).threads u).pc.refs = (s.setThread t x).counterRefs + y.pc.refs :=
      counterRefs_setThread _ u y
    have hl := h.refs
    omega

theorem Orderly.give {x y : Local} (ho : Orderly s) (hne : s.threads t ≠ {})
    (hx : x.pc = .idle) (hidle : (s.threads t).pc = .idle)
    (hy : y.pc = ((s.setThread t x).threads u).pc)
    (hsptrs : ((s.setThread t x).threads u).sptrs ≤ y.sptrs)
    (hwptrs : ∀ w, ((s.setThread t x).threads u).wptrs w ≤ y.wptrs w)
    (hheld : ∀ w, x.held w + y.held w =
      (s.threads t).held w + ((s.setThread t x).threads u).held w) :
    Orderly ({ s.setThread t x with shared := true }.setThread u y) := by
  refine ⟨fun v => ?_, fun w => ?_, ho.pos, ho.fresh, ho.cookie, nofun⟩
  · by_cases hvu : v = u
    · subst hvu
      rw [State.Valid, setThread_self, hy]
      by_cases hvt : v = t
      · subst hvt
        rw [setThread_self, hx]
        trivial
      · rw [setThread_of_ne hvt] at hsptrs hwptrs ⊢
        refine Pc.Valid.mono (fun huse => Or.inl ?_) (fun w hlt => hlt.trans_le (hwptrs w))
          (ho.valid v)
        rw [setThread_self]
        exact (sptr_of_mayUse (ho.owner hne) hvt huse).trans_le hsptrs
    · by_cases hvt : v = t
      · subst hvt
        rw [State.Valid, setThread_of_ne hvu]
        show (((s.setThread v x).threads v).pc).Valid _ _
        rw [setThread_self, hx]
        trivial
      · have hthread : ({ s.setThread t x with shared := true }.setThread u y).threads v =
            s.threads v := by
          rw [setThread_of_ne hvu]
          exact setThread_of_ne hvt
        refine (ho.valid v).of_same hthread fun huse => Or.inl ?_
        rw [hthread]
        exact sptr_of_mayUse (ho.owner hne) hvt huse
  · have hset := held_setThread s t x w
    have hset' : ({ s.setThread t x with shared := true }.setThread u y).held w +
        ((s.setThread t x).threads u).held w = (s.setThread t x).held w + y.held w :=
      held_setThread _ u y w
    have hw := hheld w
    have hold := ho.held w
    show _ = if w ∈ s.wrcs then (s.wrc w).weak else 0
    rw [← hold]
    omega

omit [Fintype ι] [DecidableEq ι] in
theorem ne_empty_of_wptr {w : Nat} (h : 0 < (s.threads t).wptrs w) : s.threads t ≠ {} := by
  intro heq
  rw [heq] at h
  exact Nat.lt_irrefl 0 h

omit [Fintype ι] [DecidableEq ι] in
theorem ne_empty_of_sptr (h : 0 < (s.threads t).sptrs) : s.threads t ≠ {} := by
  intro heq
  rw [heq] at h
  exact Nat.lt_irrefl 0 h

theorem Inv.clearSptr (h : Inv s) (hidle : (s.threads t).pc = .idle)
    (hpos : 0 < (s.threads t).sptrs) :
    Inv (s.setThread t { s.threads t with pc := .decLoad, sptrs := (s.threads t).sptrs - 1 }) := by
  refine h.begin hidle (Or.inr (ne_empty_of_sptr hpos)) (fun r => ?_) rfl (fun w => ?_) ?_
  · by_cases hr : r = .strong
    · subst hr
      simp [Local.count, hidle, Pc.role]
      omega
    · simp [Local.count, hidle, Pc.role, hr, Ne.symm hr]
  · rw [Pc.AtWork.held (Or.inr hidle)]
    refine Local.held_of_not (fun w' heq => ?_) w
    cases heq
  · rw [State.Valid, setThread_self]
    trivial

theorem Local.held_dropSub (x : Local) (w w' : Nat) (f : Nat → Nat) :
    Local.held { x with pc := .dropSub w, wptrs := f } w' = f w' + if w = w' then 1 else 0 := rfl

theorem Inv.dropWptr (h : Inv s) (hidle : (s.threads t).pc = .idle) {w : Nat}
    (hpos : 0 < (s.threads t).wptrs w) : Inv (s.takeWptr t (.dropSub w) w) := by
  refine h.begin hidle (Or.inr (ne_empty_of_wptr hpos)) (fun r => ?_) rfl (fun w' => ?_) ?_
  · simp [Local.count, hidle, Pc.role]
  · rw [Local.held_dropSub, Pc.AtWork.held (Or.inr hidle)]
    by_cases hw : w' = w
    · subst hw
      rw [Function.update_self, if_pos rfl]
      omega
    · rw [Function.update_of_ne hw, if_neg (Ne.symm hw), Nat.add_zero]
  · rw [State.Valid, setThread_self]
    trivial

theorem Local.held_update (x : Local) (w n w' : Nat) :
    Local.held { x with wptrs := Function.update x.wptrs w n } w' +
      (if w' = w then x.wptrs w else 0) = x.held w' + if w' = w then n else 0 := by
  simp only [Local.held]
  by_cases hw : w' = w
  · subst hw
    rw [Function.update_self, if_pos rfl, if_pos rfl]
    omega
  · rw [Function.update_of_ne hw, if_neg hw, if_neg hw]

theorem le_update_succ (f : Nat → Nat) (w w' : Nat) :
    f w' ≤ Function.update f w (f w + 1) w' := by
  by_cases hw : w' = w
  · rw [hw, Function.update_self]
    exact Nat.le_succ _
  · rw [Function.update_of_ne hw]

theorem Inv.giveSptr (h : Inv s) (hidle : (s.threads t).pc = .idle)
    (hpos : 0 < (s.threads t).sptrs) : Inv (s.start t (.giveSptr u)) := by
  obtain ⟨l, hl, hagrees, ho⟩ := h
  simp only [State.start, if_pos hpos]
  refine ⟨l, hl, hagrees.give rfl rfl fun r => ?_, ho.give (ne_empty_of_sptr hpos) hidle hidle rfl
    (Nat.le_succ _) (fun _ => le_rfl) fun w => rfl⟩
  simp only [Local.count]
  by_cases hr : r = .strong
  · simp only [if_pos hr]
    omega
  · simp only [if_neg hr]

theorem Inv.giveWptr (h : Inv s) (hidle : (s.threads t).pc = .idle) {w : Nat}
    (hpos : 0 < (s.threads t).wptrs w) : Inv (s.start t (.giveWptr u w)) := by
  obtain ⟨l, hl, hagrees, ho⟩ := h
  have htake : s.takeWptr t .idle w = s.setThread t { s.threads t with
      wptrs := Function.update (s.threads t).wptrs w ((s.threads t).wptrs w - 1) } := by
    rw [State.takeWptr, ← hidle]
  simp only [State.start, if_pos hpos, htake]
  refine ⟨l, hl, hagrees.give rfl rfl fun r => rfl, ho.give (ne_empty_of_wptr hpos) hidle
    hidle rfl le_rfl (fun w' => ?_) fun w' => ?_⟩
  · exact le_update_succ _ w w'
  · have htaken := Local.held_update (s.threads t) w ((s.threads t).wptrs w - 1) w'
    have hgiven := Local.held_update ((s.setThread t { s.threads t with
      wptrs := Function.update (s.threads t).wptrs w ((s.threads t).wptrs w - 1) }).threads u) w
      (((s.setThread t { s.threads t with
        wptrs := Function.update (s.threads t).wptrs w ((s.threads t).wptrs w - 1) }).threads
          u).wptrs w + 1) w'
    by_cases hw : w' = w
    · simp only [if_pos hw] at htaken hgiven
      omega
    · simp only [if_neg hw] at htaken hgiven
      omega

theorem Inv.start (h : Inv s) (hidle : (s.threads t).pc = .idle) (a : Act ι) :
    Inv (s.start t a) := by
  cases a with
  | newSptr =>
      rw [State.start]
      split
      · rename_i huse
        exact h.begin_goto hidle (Or.inl huse) rfl rfl trivial huse
      · exact h
  | clearSptr =>
      rw [State.start]
      split
      · rename_i hpos
        exact h.clearSptr hidle hpos
      · exact h
  | promote w =>
      rw [State.start]
      split
      · rename_i hpos
        exact h.begin_goto hidle (Or.inr (ne_empty_of_wptr hpos)) rfl rfl trivial hpos
      · exact h
  | newWptr =>
      rw [State.start]
      split
      · rename_i huse
        exact h.begin_goto hidle (Or.inl huse) rfl rfl trivial huse
      · exact h
  | copyWptr w =>
      rw [State.start]
      split
      · rename_i hpos
        exact h.begin_goto hidle (Or.inr (ne_empty_of_wptr hpos)) rfl rfl trivial hpos
      · exact h
  | dropWptr w =>
      rw [State.start]
      split
      · rename_i hpos
        exact h.dropWptr hidle hpos
      · exact h
  | giveSptr u =>
      by_cases hpos : 0 < (s.threads t).sptrs
      · exact h.giveSptr hidle hpos
      · rw [State.start, if_neg hpos]
        exact h
  | giveWptr u w =>
      by_cases hpos : 0 < (s.threads t).wptrs w
      · exact h.giveWptr hidle hpos
      · rw [State.start, if_neg hpos]
        exact h
  | go spurious canPromote => exact h

/-! ## Runs -/

theorem Inv.step (h : Inv s) (hw : s.Within) (a : ι × Act ι) (hwithin : (s.step a).Within) :
    Inv (s.step a) := by
  obtain ⟨t, a⟩ := a
  cases a with
  | go spurious canPromote => exact h.go hw hwithin
  | _ =>
      simp only [State.step]
      split
      · rename_i hidle
        exact h.start hidle _
      · exact h

omit [DecidableEq ι] in
theorem inv_new (creator : ι) : Inv (State.new creator) := by
  refine ⟨Ledger.new, Ledger.sound_new, ⟨fun r => ?_, ?_, ?_⟩, ?_⟩
  · simp [State.count, State.new, Local.count, Pc.role, Ledger.new]
  · simp [State.counterRefs, State.new, Pc.refs, Ledger.new]
  · exact ⟨by simp [State.new, Ledger.new, Ledger.strong], rfl, rfl, rfl, fun _ => rfl, rfl, rfl⟩
  · refine ⟨fun t => trivial, fun w => ?_, by simp [State.new], by simp [State.new], fun _ => rfl,
      fun _ _ _ => rfl⟩
    simp [State.held, State.new, Local.held]

theorem Inv.run {s : State ι} (h : Inv s) {as : List (ι × Act ι)}
    (hwithin : ∀ p, p <+: as → (s.run p).Within) : Inv (s.run as) := by
  induction as using List.reverseRecOn with
  | nil => exact h
  | append_singleton as a ih =>
      have hpre : as <+: as ++ [a] := List.prefix_append as [a]
      have hstep : s.run (as ++ [a]) = (s.run as).step a := by
        rw [State.run, List.foldl_append]
        rfl
      have hlast := hwithin _ List.prefix_rfl
      rw [hstep] at hlast ⊢
      exact (ih fun p hp => hwithin p (hp.trans hpre)).step (hwithin as hpre) a hlast

/-- A strong reference that is not in an `sptr` of the thread: one that `IncStrongRef` or
`AttemptIncStrongRef` has taken for a new `sptr`, or one that `DecStrongRef` is to give up. -/
def Pc.HasStrong : Pc → Prop
  | .incSub | .incFlags | .attemptSub _ | .attemptPtr _ | .decLoad | .decSub => True
  | _ => False

theorem Pc.HasStrong.role {pc : Pc} (h : pc.HasStrong) :
    pc.role = some .starting ∨ pc.role = some .strong := by
  cases pc with
  | incSub | attemptSub w => exact Or.inl rfl
  | incFlags | attemptPtr w | decLoad | decSub => exact Or.inr rfl
  | _ => exact h.elim

/-- No thread calls the callback twice, or while one has a strong reference; the `RefCounter` is
deleted once, when no thread has anything left to do with it. -/
structure Safe (s : State ι) : Prop where
  once : s.invoked ≤ 1
  held : ∀ t, 0 < (s.threads t).sptrs ∨ (s.threads t).pc.HasStrong → s.invoked = 0
  freed : s.freed ≤ 1
  done : s.freed = 1 → ∀ t, s.threads t = {} ∧ ¬ s.MayUse t

omit [DecidableEq ι] in
theorem Agrees.strong_pos (h : Agrees s l)
    (hstrong : 0 < (s.threads t).sptrs ∨ (s.threads t).pc.HasStrong) : 0 < l.strong := by
  unfold Ledger.strong
  rcases hstrong with hsptrs | hpc
  · have := h.sptr_pos hsptrs
    omega
  · rcases hpc.role with hrole | hrole
    · have := h.role_pos hrole
      omega
    · have := h.role_pos hrole
      omega

omit [DecidableEq ι] in
/-- Whatever a thread is doing, or could do with its pointers, shows in the ledger. -/
theorem Agrees.nobody (h : Agrees s l) (ho : Orderly s) (hcount : ∀ r, l.count r = 0)
    (hrefs : l.refs = 0) (hinvoked : l.invoked = 1) (t : ι) :
    s.threads t = {} ∧ ¬ s.MayUse t := by
  have hsptrs : (s.threads t).sptrs = 0 := by
    by_contra hne
    have hpos := h.sptr_pos (Nat.pos_of_ne_zero hne)
    rw [hcount] at hpos
    exact Nat.lt_irrefl 0 hpos
  have hheld : ∀ w, ¬ 0 < (s.threads t).held w := by
    intro w hpos
    have hcard := Finset.card_pos.2 ⟨w, ho.mem_wrcs hpos⟩
    have hweak := h.count .weak
    rw [hcount, State.count, if_pos rfl] at hweak
    omega
  have hwptrs : ∀ w, ¬ 0 < (s.threads t).wptrs w := fun w hpos =>
    hheld w (hpos.trans_le (Nat.le_add_right _ _))
  have huse : ¬ s.MayUse t := by
    rintro (hpos | ⟨-, -, hzero⟩)
    · omega
    · rw [h.numbers.invoked] at hzero
      omega
  have hrole : ∀ r, (s.threads t).pc.role ≠ some r := by
    intro r hr
    have hpos := h.role_pos hr
    rw [hcount] at hpos
    exact Nat.lt_irrefl 0 hpos
  have hnone : ∀ n, (s.threads t).pc.refs ≠ n + 1 := by
    intro n hn
    have hpos := h.refs_pos hn
    omega
  have hpc : (s.threads t).pc = .idle := by
    have hvalid := ho.valid t
    unfold State.Valid at hvalid
    cases hpc : (s.threads t).pc with
    | idle => rfl
    | incWeak | newRef =>
        rw [hpc] at hvalid
        exact absurd hvalid huse
    | attemptLoad w | attemptWeak w curCount | copyAdd w =>
        rw [hpc] at hvalid
        exact absurd hvalid (hwptrs w)
    | newAdd c | newWeak c =>
        rw [hpc] at hnone
        exact absurd rfl (hnone 0)
    | copyWeak w =>
        rw [hpc] at hvalid
        exact hvalid.elim
    | dropSub w =>
        refine absurd ?_ (hheld w)
        rw [Local.held, hpc]
        simp
    | refLoad r | refSub r =>
        rw [hpc] at hrole hnone
        cases r with
        | wrc => exact absurd rfl (hnone 0)
        | _ => exact absurd rfl (hrole _)
    | attemptEnd w curCount =>
        rw [hpc] at hrole
        by_cases hpos : 0 < curCount
        · exact absurd (if_pos hpos) (hrole _)
        · exact absurd (if_neg hpos) (hrole _)
    | _ =>
        rw [hpc] at hrole
        exact absurd rfl (hrole _)
  refine ⟨?_, huse⟩
  have hzero : (s.threads t).wptrs = fun _ => 0 := by
    funext w
    exact Nat.eq_zero_of_not_pos (hwptrs w)
  cases hthread : s.threads t with
  | mk pc sptrs wptrs =>
      rw [hthread] at hpc hsptrs hzero
      subst hpc hsptrs hzero
      rfl

omit [DecidableEq ι] in
theorem Inv.safe (h : Inv s) : Safe s := by
  obtain ⟨l, hl, hagrees, ho⟩ := h
  refine ⟨?_, fun t ht => ?_, ?_, fun hfreed t => ?_⟩
  · rw [hagrees.numbers.invoked]
    exact hl.invoked_le
  · rw [hagrees.numbers.invoked]
    exact hl.invoked_eq_zero (hagrees.strong_pos ht)
  · rw [hagrees.numbers.freed]
    exact hl.freed_le
  · rw [hagrees.numbers.freed] at hfreed
    obtain ⟨hcount, hrefs, hinvoked⟩ := hl.of_freed hfreed
    exact hagrees.nobody ho hcount hrefs hinvoked t

/-- **In every interleaving** the callback is called at most once and not while a thread has a
strong reference, and the `RefCounter` is deleted at most once and not before every thread is done
with it. -/
theorem threads_safe (creator : ι) {as : List (ι × Act ι)}
    (hwithin : ∀ p, p <+: as → ((State.new creator).run p).Within) :
    Safe ((State.new creator).run as) :=
  ((inv_new creator).run hwithin).safe

def goes {ι : Type} (t : ι) (n : Nat) : List (ι × Act ι) := List.replicate n (t, .go false true)

/-- The creator makes an `sptr` and hands it over; the other thread destroys the object. -/
def handOver : List (Bool × Act Bool) :=
  (true, .newSptr) :: goes true 5 ++
    (true, .giveSptr false) :: (false, .clearSptr) :: goes false 13

theorem threads_safe_handOver : Safe ((State.new true).run handOver) := by
  refine threads_safe true fun p hp => ?_
  have hlen : p.length < 22 := Nat.lt_succ_of_le hp.length_le
  rw [List.prefix_iff_eq_take.1 hp]
  generalize p.length = k at hlen
  have hcounts : ∀ k : Fin 22, ((State.new true).run (handOver.take k)).strongRefs < 2 ^ 28 ∧
      ((State.new true).run (handOver.take k)).weakRefs < 2 ^ 31 ∧
      ((State.new true).run (handOver.take k)).counterRefs + 1 < 2 ^ 31 := by
    decide +kernel
  have hheld : ∀ w, ((State.new true).run (handOver.take k)).held w = 0 := by
    intro w
    interval_cases k <;> rfl
  obtain ⟨hstrong, hweak, hrefs⟩ := hcounts ⟨k, hlen⟩
  refine ⟨hstrong, hweak, hrefs, fun w => ?_⟩
  rw [hheld w]
  exact Nat.two_pow_pos 31

/-! ### More `sptr`s than the count can tell -/

/-- One thread with `n` `sptr`s. -/
def holding (strong : Int) (n : Nat) : State Unit :=
  { State.new () with
    refs := { strong, weak := n, refCount := 1, callback := true }
    threads := fun _ => { sptrs := n } }

def newSteps : List (Unit × Act Unit) := ((), .newSptr) :: goes () 5

def clearSteps : List (Unit × Act Unit) := ((), .clearSptr) :: goes () 4

def newSptrs (n : Nat) : List (Unit × Act Unit) := (List.replicate n newSteps).flatten

theorem newSptrs_succ (n : Nat) : newSptrs (n + 1) = newSptrs n ++ newSteps := by
  rw [newSptrs, List.replicate_succ', List.flatten_append, List.flatten_singleton, newSptrs]

theorem update_unit {α : Type} (f : Unit → α) (a : α) : Function.update f () a = fun _ => a := by
  funext u
  exact Function.update_self ..

theorem int32_initial : int32 (initialPrimaryValue + 1) = initialPrimaryValue + 1 := by
  unfold initialPrimaryValue
  exact int32_eq (by omega) (by omega)

theorem int32_one : int32 1 = 1 := int32_eq (by omega) (by omega)

theorem initial_nonneg : 0 ≤ initialPrimaryValue := by
  unfold initialPrimaryValue
  omega

theorem holding_first : (State.new ()).run newSteps = holding 1 1 := by
  simp [State.run, newSteps, goes, List.replicate, State.step, State.start, State.MayUse, holding,
    State.go, State.goto, State.setThread, State.setWeak, State.setStrong, State.addSptr,
    update_unit, State.new, int32_initial, int32_one, initial_nonneg]

theorem holding_next {n : Nat} (hpos : 0 < n) (hlt : n < 2 ^ 28) :
    (holding n n).run newSteps = holding (n + 1 : Nat) (n + 1) := by
  have hadd : int32 ((n : Int) + 1) = n + 1 := int32_eq (by omega) (by omega)
  have hne : ¬ (n : Int) = initialPrimaryValue := by
    unfold initialPrimaryValue
    omega
  simp [State.run, newSteps, goes, List.replicate, State.step, State.start, State.MayUse, holding,
    State.go, State.goto, State.setThread, State.setWeak, State.setStrong, State.addSptr,
    update_unit, State.new, hadd, hne, hpos]

theorem holding_many {n : Nat} (hlt : n < 2 ^ 28) :
    (State.new ()).run (newSptrs (n + 1)) = holding (n + 1 : Nat) (n + 1) := by
  induction n with
  | zero =>
      have hone : newSptrs 1 = newSteps := by simp [newSptrs]
      rw [hone]
      exact holding_first
  | succ n ih =>
      rw [newSptrs_succ, State.run, List.foldl_append]
      have hrun := ih (by omega)
      rw [State.run] at hrun
      rw [hrun]
      exact holding_next (by omega) hlt

/-- The strong count is the initial value again, and is taken for it. -/
theorem holding_wrap {n : Nat} (hn : (n : Int) = initialPrimaryValue) (hpos : 0 < n) :
    (holding n n).run newSteps = holding 1 (n + 1) := by
  simp [State.run, newSteps, goes, List.replicate, State.step, State.start, State.MayUse, holding,
    State.go, State.goto, State.setThread, State.setWeak, State.setStrong, State.addSptr,
    update_unit, State.new, hn, hpos, int32_initial, int32_one, initial_nonneg]

theorem holding_clear (n : Nat) :
    ((holding 1 (n + 1)).run clearSteps).invoked = 1 ∧
      (((holding 1 (n + 1)).run clearSteps).threads ()).sptrs = n := by
  have hne : ¬ (1 : Int) = initialPrimaryValue := by
    unfold initialPrimaryValue
    omega
  simp [State.run, clearSteps, goes, List.replicate, State.step, State.start, holding, State.go,
    State.goto, State.setThread, State.setStrong, update_unit, State.new, hne]

/-- **One `sptr` too many.** With the `sptr` after the `2 ^ 28`th the strong count is one, and the
next `sptr` that goes takes the object with it. -/
theorem too_many_sptrs :
    ¬ Safe ((State.new ()).run (newSptrs (2 ^ 28 + 1) ++ clearSteps)) := by
  have hn : (2 ^ 28 - 1 : Nat) + 1 = 2 ^ 28 := rfl
  have hlt : (2 ^ 28 - 1 : Nat) < 2 ^ 28 := by decide
  have hcast : ((2 ^ 28 : Nat) : Int) = initialPrimaryValue := rfl
  have hpos : 0 < 2 ^ 28 := by decide
  generalize 2 ^ 28 - 1 = m at hn hlt
  have hmany := holding_many hlt
  rw [hn] at hmany
  generalize 2 ^ 28 = n at *
  intro hsafe
  have hrun : (State.new ()).run (newSptrs (n + 1) ++ clearSteps) =
      (holding 1 (n + 1)).run clearSteps := by
    rw [newSptrs_succ, State.run, List.foldl_append, List.foldl_append]
    rw [State.run] at hmany
    rw [hmany]
    have hwrap := holding_wrap hcast hpos
    rw [State.run] at hwrap
    rw [hwrap]
    rfl
  obtain ⟨hinvoked, hsptrs⟩ := holding_clear n
  rw [hrun] at hsafe
  have hzero := hsafe.held () (Or.inl (by rw [hsptrs]; exact hpos))
  rw [hinvoked] at hzero
  exact Nat.one_ne_zero hzero

end CUtils.RefBases.Threads
