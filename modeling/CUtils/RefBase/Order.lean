import CUtils.RefBase.Steps

/-!
# What the threads know

`Orderly` through the steps. A thread that is in the middle of something is the creator, or the
object is shared: in both cases no other thread uses the raw pointer, so what is known of the others
does not change with its step.
-/

namespace CUtils.RefBases.Threads

variable {ι : Type} [Fintype ι] [DecidableEq ι]

variable {s s₀ : State ι} {l : Ledger} {t u : ι} {spurious canPromote : Bool} {pc' : Pc}

/-! ## One thread -/

theorem Pc.Valid.mono {p q : Prop} {f g : Nat → Nat} (hp : p → q) (hf : ∀ w, 0 < f w → 0 < g w)
    (h : pc'.Valid p f) : pc'.Valid q g := by
  cases pc' with
  | incWeak | incLoad | incAdd | newRef => exact hp h
  | newAdd c | newWeak c => exact ⟨hp h.1, h.2⟩
  | attemptLoad w | attemptWeak w | copyAdd w => exact hf w h
  | _ => exact h

omit [Fintype ι] [DecidableEq ι] in
theorem State.Valid.of_same {s' : State ι} (hvalid : s.Valid u)
    (hthread : s'.threads u = s.threads u) (huse : s.MayUse u → s'.MayUse u) : s'.Valid u := by
  unfold State.Valid at *
  rw [hthread]
  exact hvalid.mono huse fun _ hlt => hlt

omit [DecidableEq ι] in
/-- Before the object is shared, a thread that has anything to do with it is the creator. -/
theorem Orderly.owner (ho : Orderly s) (hne : s.threads t ≠ {}) (hshared : s.shared = false) :
    t = s.creator := by
  by_contra hnot
  exact hne (ho.alone hshared t hnot)

omit [DecidableEq ι] in
theorem Orderly.owner_of_busy (ho : Orderly s) (hbusy : (s.threads t).pc ≠ .idle)
    (hshared : s.shared = false) : t = s.creator := by
  refine ho.owner (fun heq => hbusy ?_) hshared
  rw [heq]

omit [Fintype ι] [DecidableEq ι] in
theorem sptr_of_mayUse (hown : s.shared = false → t = s.creator) (hne : u ≠ t)
    (huse : s.MayUse u) : 0 < (s.threads u).sptrs := by
  rcases huse with hsptrs | ⟨rfl, hshared, -⟩
  · exact hsptrs
  · exact absurd (hown hshared).symm hne

theorem Local.held_of_not {x : Local} (hnot : ∀ w, x.pc ≠ .dropSub w) (w : Nat) :
    x.held w = x.wptrs w := by
  unfold Local.held
  split
  · rename_i w' hpc
    exact absurd hpc (hnot w')
  · rfl

/-- The step of a thread leaves what is known of the others. -/
theorem Orderly.others {x : Local} (ho : Orderly s) (hthreads : s₀.threads = s.threads)
    (hcreator : s₀.creator = s.creator) (hshared : s₀.shared = s.shared)
    (hown : s.shared = false → t = s.creator) (hvalid : (s₀.setThread t x).Valid t) :
    (∀ u, (s₀.setThread t x).Valid u) ∧
      ((s₀.setThread t x).shared = false → ∀ u, u ≠ (s₀.setThread t x).creator →
        (s₀.setThread t x).threads u = {}) := by
  refine ⟨fun u => ?_, fun hnot u hu => ?_⟩
  · by_cases hut : u = t
    · rw [hut]
      exact hvalid
    · have hthread : (s₀.setThread t x).threads u = s.threads u := by
        rw [setThread_of_ne hut, hthreads]
      refine (ho.valid u).of_same hthread fun huse => Or.inl ?_
      rw [hthread]
      exact sptr_of_mayUse hown hut huse
  · have hshared' : s.shared = false := hshared.symm.trans hnot
    have hu' : u ≠ s.creator := hcreator ▸ hu
    have hut : u ≠ t := by
      rw [hown hshared']
      exact hu'
    rw [setThread_of_ne hut, hthreads]
    exact ho.alone hshared' u hu'

/-- No `wptr` comes or goes. -/
theorem Orderly.setThread {x : Local} (ho : Orderly s) (hs₀ : Counters s s₀)
    (hown : s.shared = false → t = s.creator) (hheld : ∀ w, x.held w = (s.threads t).held w)
    (hvalid : (s₀.setThread t x).Valid t) : Orderly (s₀.setThread t x) := by
  obtain ⟨hvalid', halone⟩ := ho.others hs₀.threads hs₀.creator hs₀.shared hown hvalid
  refine ⟨hvalid', fun w => ?_, ?_, ?_, ?_, halone⟩
  · have hset := held_setThread s₀ t x w
    have hsame : s₀.held w = s.held w := by
      unfold State.held
      rw [hs₀.threads]
    rw [hs₀.threads, hsame, hheld] at hset
    have hold := ho.held w
    show _ = if w ∈ s₀.wrcs then (s₀.wrc w).weak else 0
    rw [hs₀.wrcs, hs₀.wrc, ← hold]
    omega
  · show ∀ w ∈ s₀.wrcs, 0 < (s₀.wrc w).weak
    rw [hs₀.wrcs, hs₀.wrc]
    exact ho.pos
  · show ∀ w ∈ s₀.wrcs, w < s₀.next
    rw [hs₀.wrcs, hs₀.next]
    exact ho.fresh
  · show ∀ w, (s₀.wrc w).cookie = true
    rw [hs₀.wrc]
    exact ho.cookie

/-- The thread is in the middle of something other than giving a `wptr` up. -/
def Pc.AtWork : Pc → Prop
  | .idle => False
  | .dropSub _ => False
  | _ => True

theorem Pc.AtWork.ne_idle {pc : Pc} (h : pc.AtWork) : pc ≠ .idle := by
  rintro rfl
  exact h

theorem Pc.AtWork.held {x : Local} (h : x.pc.AtWork ∨ x.pc = .idle) (w : Nat) :
    x.held w = x.wptrs w := by
  refine Local.held_of_not (fun w' heq => ?_) w
  rw [heq] at h
  rcases h with h | h
  · exact h
  · cases h

theorem Orderly.goto (ho : Orderly s) (hs₀ : Counters s s₀) (hwork : (s.threads t).pc.AtWork)
    (hnew : pc'.AtWork ∨ pc' = .idle) (hvalid : (s₀.goto t pc').Valid t) :
    Orderly (s₀.goto t pc') := by
  refine ho.setThread hs₀ (ho.owner_of_busy hwork.ne_idle) (fun w => ?_) hvalid
  rw [Pc.AtWork.held hnew, Pc.AtWork.held (Or.inl hwork), hs₀.threads]

omit [Fintype ι] in
theorem valid_goto : (s₀.goto t pc').Valid t ↔ pc'.Valid (s₀.MayUse t) (s₀.threads t).wptrs := by
  have hself : (s₀.goto t pc').threads t = { s₀.threads t with pc := pc' } := setThread_self
  have huse : (s₀.goto t pc').MayUse t ↔ s₀.MayUse t := by
    unfold State.MayUse
    rw [hself]
    exact Iff.rfl
  unfold State.Valid
  rw [hself, huse]

omit [Fintype ι] [DecidableEq ι] in
/-- The object may still be used: nothing has been handed over, and the callback not called. -/
theorem Counters.mayUse (hs₀ : Counters s s₀) (hinvoked : s₀.invoked = s.invoked)
    (huse : s.MayUse t) : s₀.MayUse t := by
  unfold State.MayUse at *
  rwa [hs₀.threads, hs₀.creator, hs₀.shared, hinvoked]

/-! ## The steps -/

/-- The steps at which nothing has to be known. -/
def Pc.Plain (pc : Pc) : Prop := (pc.AtWork ∨ pc = .idle) ∧ pc.Valid False fun _ => 0

theorem Orderly.plain (ho : Orderly s) (hs₀ : Counters s s₀) (hwork : (s.threads t).pc.AtWork)
    (hplain : pc'.Plain) : Orderly (s₀.goto t pc') :=
  ho.goto hs₀ hwork hplain.1
    (valid_goto.2 (hplain.2.mono False.elim fun _ hlt => absurd hlt (Nat.lt_irrefl 0)))

theorem Pc.plain_ite {c : Prop} [Decidable c] {p q : Pc} (hp : p.Plain) (hq : q.Plain) :
    (if c then p else q).Plain := by
  split
  · exact hp
  · exact hq

theorem WeakReturn.pc_plain (k : WeakReturn) : k.pc.Plain := by
  cases k with
  | decStrongRef => exact ⟨Or.inr rfl, trivial⟩
  | attempt => exact ⟨Or.inr rfl, trivial⟩
  | wrc => exact ⟨Or.inl trivial, nofun⟩

theorem CallbackReturn.pc_plain (k : CallbackReturn) : k.pc.Plain := by
  cases k with
  | decStrongRef => exact ⟨Or.inl trivial, trivial⟩
  | decWeakRefCount k => exact k.pc_plain

theorem RefReturn.pc_plain (r : RefReturn) : r.pc.Plain := by
  cases r with
  | destructor k => exact k.pc_plain
  | decWeakRefCount k => exact k.pc_plain
  | wrc => exact ⟨Or.inr rfl, trivial⟩

theorem Pc.attemptLoop_plain (w : Nat) (curCount : Int) : (Pc.attemptLoop w curCount).Plain := by
  unfold Pc.attemptLoop
  split
  · rename_i hpos
    exact ⟨Or.inl trivial, hpos⟩
  · split
    · rename_i heq
      exact ⟨Or.inl trivial, heq⟩
    · rename_i hnot hne
      exact ⟨Or.inl trivial, not_lt.1 fun hpos => hnot ⟨hpos, hne⟩⟩

theorem Pc.attemptFirstLoop_plain (w : Nat) (curCount : Int) :
    (Pc.attemptFirstLoop w curCount).Plain := by
  unfold Pc.attemptFirstLoop
  split
  · rename_i hpos
    exact ⟨Or.inl trivial, hpos⟩
  · rename_i hnot
    exact ⟨Or.inl trivial, not_lt.1 hnot⟩

theorem Pc.attemptSuccess_plain (w : Nat) (curCount : Int) :
    (Pc.attemptSuccess w curCount).Plain := by
  unfold Pc.attemptSuccess
  split
  · exact ⟨Or.inl trivial, trivial⟩
  · split
    · exact ⟨Or.inl trivial, trivial⟩
    · rename_i hnot
      exact ⟨Or.inl trivial, not_lt.1 hnot⟩

theorem Orderly.addSptr (ho : Orderly s) (hwork : (s.threads t).pc.AtWork) :
    Orderly (s.addSptr t) := by
  refine ho.setThread Counters.update (ho.owner_of_busy hwork.ne_idle)
    (fun w => ?_) ?_
  · rw [Pc.AtWork.held (Or.inl hwork), Pc.AtWork.held (Or.inr rfl)]
  · unfold State.Valid
    rw [setThread_self]
    trivial

/-- The thread uses the object and goes on using it. -/
theorem Orderly.using (ho : Orderly s) (hs₀ : Counters s s₀) (hinvoked : s₀.invoked = s.invoked)
    (hwork : (s.threads t).pc.AtWork) (huse : s.MayUse t) (hnew : pc'.AtWork)
    (hvalid : pc'.Valid True (fun _ => 0)) : Orderly (s₀.goto t pc') :=
  ho.goto hs₀ hwork (Or.inl hnew) (valid_goto.2
    (hvalid.mono (fun _ => hs₀.mayUse hinvoked huse) fun _ hlt => absurd hlt (Nat.lt_irrefl 0)))

/-- A new `WeakRefCounter` has one `wptr`. -/
theorem Orderly.go_newWeak (ho : Orderly s) {c : WeakRefCounter}
    (hpc : (s.threads t).pc = .newWeak c) : Orderly (s.go t spurious canPromote) := by
  have hvalid := ho.valid t
  rw [State.Valid, hpc] at hvalid
  obtain ⟨-, rfl⟩ := hvalid
  have hnext : s.next ∉ s.wrcs := fun hmem => (ho.fresh _ hmem).false
  simp only [State.go, hpc]
  let s₁ : State ι := { s.setWeak (s.refs.weak + 1) with
    wrcs := insert s.next s.wrcs
    wrc := Function.update s.wrc s.next { weak := 1 }
    next := s.next + 1 }
  let x : Local := { s.threads t with
    pc := .idle
    wptrs := Function.update (s.threads t).wptrs s.next ((s.threads t).wptrs s.next + 1) }
  show Orderly (s₁.setThread t x)
  have hvalid : (s₁.setThread t x).Valid t := by
    rw [State.Valid, setThread_self]
    trivial
  obtain ⟨hvalid', halone⟩ := ho.others rfl rfl rfl
    (ho.owner_of_busy (Pc.AtWork.ne_idle (hpc ▸ trivial))) hvalid
  refine ⟨hvalid', fun w => ?_, ?_, ?_, ?_, halone⟩
  · have hset := held_setThread s₁ t x w
    have hold := ho.held w
    have hself : (s₁.threads t).held w = (s.threads t).wptrs w :=
      Pc.AtWork.held (Or.inl (hpc ▸ trivial)) w
    have hsame : s₁.held w = s.held w := rfl
    have hx : x.held w = x.wptrs w := Pc.AtWork.held (Or.inr rfl) w
    rw [hself, hsame, hx] at hset
    show _ = if w ∈ insert s.next s.wrcs then (Function.update s.wrc s.next _ w).weak else 0
    by_cases hw : w = s.next
    · subst hw
      have hone : x.wptrs s.next = (s.threads t).wptrs s.next + 1 := Function.update_self ..
      rw [if_neg hnext] at hold
      rw [if_pos (Finset.mem_insert_self _ _), Function.update_self]
      show _ = (1 : Int)
      omega
    · have hiff : w ∈ insert s.next s.wrcs ↔ w ∈ s.wrcs := by
        rw [Finset.mem_insert]
        exact or_iff_right hw
      have hsame : x.wptrs w = (s.threads t).wptrs w := Function.update_of_ne hw ..
      rw [Function.update_of_ne hw, if_congr hiff rfl rfl, ← hold]
      omega
  · intro w hw
    show 0 < (Function.update s.wrc s.next _ w).weak
    by_cases heq : w = s.next
    · rw [heq, Function.update_self]
      exact Int.one_pos
    · rw [Function.update_of_ne heq]
      exact ho.pos w (Finset.mem_of_mem_insert_of_ne hw heq)
  · intro w hw
    rcases Finset.mem_insert.1 hw with rfl | hmem
    · exact Nat.lt_succ_self _
    · exact (ho.fresh w hmem).trans (Nat.lt_succ_self _)
  · intro w
    show (Function.update s.wrc s.next _ w).cookie = true
    by_cases heq : w = s.next
    · rw [heq, Function.update_self]
    · rw [Function.update_of_ne heq]
      exact ho.cookie w

/-- The count of a `WeakRefCounter` changes with the `wptr`s it has. -/
theorem Orderly.setWrc {x : Local} {w : Nat} {n : Int} {wrcs : Finset Nat} (ho : Orderly s)
    (hbusy : (s.threads t).pc ≠ .idle) (hx : x.pc.Plain)
    (hsub : ∀ w', w' ∈ wrcs ↔ w' ∈ s.wrcs ∧ (w' = w → n ≠ 0)) (hn : 0 ≤ n)
    (hself : (s.threads t).held w + n = x.held w + (s.wrc w).weak) (hmem : w ∈ s.wrcs)
    (hother : ∀ w', w' ≠ w → x.held w' = (s.threads t).held w') :
    Orderly ({ s with wrcs, wrc := Function.update s.wrc w { s.wrc w with weak := n } }.setThread
      t x) := by
  set s₁ : State ι :=
    { s with wrcs, wrc := Function.update s.wrc w { s.wrc w with weak := n } }
  have hvalid : (s₁.setThread t x).Valid t := by
    rw [State.Valid, setThread_self]
    exact hx.2.mono False.elim fun _ hlt => absurd hlt (Nat.lt_irrefl 0)
  obtain ⟨hvalid', halone⟩ := ho.others rfl rfl rfl (ho.owner_of_busy hbusy) hvalid
  refine ⟨hvalid', fun w' => ?_, fun w' hw' => ?_, fun w' hw' => ho.fresh w' ((hsub w').1 hw').1,
    fun w' => ?_, halone⟩
  · have hset : (s₁.setThread t x).held w' + (s.threads t).held w' = s.held w' + x.held w' :=
      held_setThread s₁ t x w'
    have hold := ho.held w'
    show _ = if w' ∈ wrcs then (Function.update s.wrc w _ w').weak else 0
    by_cases heq : w' = w
    · subst heq
      rw [if_pos hmem] at hold
      rw [Function.update_self]
      by_cases hzero : n = 0
      · rw [if_neg fun hin => ((hsub w').1 hin).2 rfl hzero]
        omega
      · rw [if_pos ((hsub w').2 ⟨hmem, fun _ => hzero⟩)]
        show _ = n
        omega
    · have hiff : w' ∈ wrcs ↔ w' ∈ s.wrcs := by
        rw [hsub]
        exact and_iff_left fun h => absurd h heq
      rw [Function.update_of_ne heq, if_congr hiff rfl rfl, ← hold]
      rw [hother w' heq] at hset
      omega
  · show 0 < (Function.update s.wrc w _ w').weak
    by_cases heq : w' = w
    · have hne := ((hsub w').1 hw').2 heq
      rw [heq, Function.update_self]
      show 0 < n
      omega
    · rw [Function.update_of_ne heq]
      exact ho.pos w' ((hsub w').1 hw').1
  · show (Function.update s.wrc w _ w').cookie = true
    by_cases heq : w' = w
    · rw [heq, Function.update_self]
      exact ho.cookie w
    · rw [Function.update_of_ne heq]
      exact ho.cookie w'

theorem held_addWptr {w : Nat} (hwork : (s.threads t).pc.AtWork) :
    (s.addWptr t w).held w = s.held w + 1 := by
  let x : Local := { s.threads t with
    pc := .idle, wptrs := Function.update (s.threads t).wptrs w ((s.threads t).wptrs w + 1) }
  have hset : (s.addWptr t w).held w + (s.threads t).held w = s.held w + x.held w :=
    held_setThread s t x w
  have hx : x.held w = (s.threads t).wptrs w + 1 :=
    (Pc.AtWork.held (Or.inr rfl) w).trans (Function.update_self ..)
  rw [Pc.AtWork.held (Or.inl hwork), hx] at hset
  omega

theorem Orderly.go_copyAdd (ho : Orderly s) {w : Nat} (hpc : (s.threads t).pc = .copyAdd w)
    (hwithin : (s.go t spurious canPromote).Within) : Orderly (s.go t spurious canPromote) := by
  have hwptrs : 0 < (s.threads t).wptrs w := by
    have hvalid := ho.valid t
    rw [State.Valid, hpc] at hvalid
    exact hvalid
  have hheld : ∀ w', (s.threads t).held w' = (s.threads t).wptrs w' :=
    Pc.AtWork.held (Or.inl (hpc ▸ trivial))
  have hmem : w ∈ s.wrcs := ho.mem_wrcs (t := t) (by rw [hheld]; exact hwptrs)
  have hpos := ho.pos w hmem
  have hcount := ho.held w
  rw [if_pos hmem] at hcount
  simp only [State.go, hpc, if_neg hpos.ne'] at hwithin ⊢
  have hone : int32 ((s.wrc w).weak + 1) = (s.wrc w).weak + 1 := by
    have hlt := hwithin.wptrs w
    rw [held_addWptr (hpc ▸ trivial)] at hlt
    have hlt' : s.held w + 1 < 2 ^ 31 := hlt
    exact int32_eq (by omega) (by omega)
  rw [hone]
  refine ho.setWrc (w := w) (Pc.AtWork.ne_idle (hpc ▸ trivial)) ⟨Or.inr rfl, trivial⟩
    (fun w' => ?_) (by omega) ?_ hmem fun w' hne => ?_
  · exact (and_iff_left fun _ => by omega).symm
  · rw [hheld, Pc.AtWork.held (Or.inr rfl)]
    simp only [Function.update_self]
    omega
  · rw [hheld, Pc.AtWork.held (Or.inr rfl)]
    exact Function.update_of_ne hne ..

theorem Orderly.go_dropSub (ho : Orderly s) (hw : s.Within) {w : Nat}
    (hpc : (s.threads t).pc = .dropSub w) : Orderly (s.go t spurious canPromote) := by
  have hself : (s.threads t).held w = (s.threads t).wptrs w + 1 := by
    rw [Local.held, hpc]
    exact congrArg _ (if_pos rfl)
  have hother : ∀ w', w' ≠ w → (s.threads t).held w' = (s.threads t).wptrs w' := by
    intro w' hne
    rw [Local.held, hpc]
    exact congrArg _ (if_neg (Ne.symm hne))
  have hbusy : (s.threads t).pc ≠ .idle := by
    intro hidle
    cases hpc.symm.trans hidle
  have hmem : w ∈ s.wrcs := ho.mem_wrcs (t := t) (by omega)
  have hpos := ho.pos w hmem
  have hcount := ho.held w
  rw [if_pos hmem] at hcount
  have hlt := hw.wptrs w
  have hone : int32 ((s.wrc w).weak - 1) = (s.wrc w).weak - 1 := int32_eq (by omega) (by omega)
  simp only [State.go, hpc, hone]
  split
  · rename_i hlast
    have hplain : Pc.Plain (.weakLoad .wrc) := ⟨Or.inl trivial, trivial⟩
    refine ho.setWrc (w := w) hbusy hplain (fun w' => ?_) (by omega) ?_ hmem
      fun w' hne => ?_
    · rw [Finset.mem_erase]
      constructor
      · rintro ⟨hne, hin⟩
        exact ⟨hin, fun heq => absurd heq hne⟩
      · rintro ⟨hin, hne⟩
        exact ⟨fun heq => hne heq (by omega), hin⟩
    · rw [hself, Pc.AtWork.held hplain.1]
      show _ = ((s.threads t).wptrs w : Int) + _
      omega
    · rw [hother w' hne, Pc.AtWork.held hplain.1]
  · rename_i hmore
    refine ho.setWrc (w := w) hbusy ⟨Or.inr rfl, trivial⟩ (fun w' => ?_) (by omega)
      ?_ hmem fun w' hne => ?_
    · exact (and_iff_left fun _ => by omega).symm
    · rw [hself, Pc.AtWork.held (Or.inr rfl)]
      show _ = ((s.threads t).wptrs w : Int) + _
      omega
    · rw [hother w' hne, Pc.AtWork.held (Or.inr rfl)]

/-- One case for each step. -/
theorem Orderly.go (ho : Orderly s) (h : Agrees s l) (hl : l.Sound) (hw : s.Within)
    (hwithin : (s.go t spurious canPromote).Within) : Orderly (s.go t spurious canPromote) := by
  have hvalid := ho.valid t
  unfold State.Valid at hvalid
  have hext := h.numbers.extended
  cases hpc : (s.threads t).pc with
  | idle =>
      simp only [State.go, hpc]
      exact ho
  | incWeak =>
      rw [hpc] at hvalid
      simp only [State.go, hpc]
      exact ho.using Counters.update rfl (hpc ▸ trivial) hvalid trivial trivial
  | incLoad =>
      rw [hpc] at hvalid
      simp only [State.go, hpc, ge_iff_le, if_pos h.numbers.strong_nonneg]
      exact ho.using Counters.update rfl (hpc ▸ trivial) hvalid trivial trivial
  | incAdd =>
      simp only [State.go, hpc]
      exact ho.plain Counters.update (hpc ▸ trivial)
        (Pc.plain_ite ⟨Or.inl trivial, trivial⟩ ⟨Or.inl trivial, trivial⟩)
  | incSub =>
      simp only [State.go, hpc]
      exact ho.plain Counters.update (hpc ▸ trivial) ⟨Or.inl trivial, trivial⟩
  | incFlags =>
      simp only [State.go, hpc]
      exact ho.addSptr (hpc ▸ trivial)
  | decLoad =>
      simp only [State.go, hpc]
      exact ho.plain Counters.update (hpc ▸ trivial)
        (Pc.plain_ite ⟨Or.inl trivial, trivial⟩
          (Pc.plain_ite ⟨Or.inl trivial, trivial⟩ ⟨Or.inl trivial, trivial⟩))
  | decSub =>
      simp only [State.go, hpc]
      exact ho.plain Counters.update (hpc ▸ trivial)
        (Pc.plain_ite ⟨Or.inl trivial, trivial⟩ ⟨Or.inl trivial, trivial⟩)
  | decFlags =>
      simp only [State.go, hpc]
      exact ho.plain Counters.update (hpc ▸ trivial)
        (Pc.plain_ite ⟨Or.inl trivial, trivial⟩ ⟨Or.inl trivial, trivial⟩)
  | decCallback =>
      simp only [State.go, hpc]
      split
      · exact ho.plain Counters.update (hpc ▸ trivial) ⟨Or.inl trivial, trivial⟩
      · exact ho.plain Counters.update (hpc ▸ trivial) ⟨Or.inl trivial, trivial⟩
  | removeCallback k =>
      simp only [State.go, hpc]
      exact ho.plain Counters.update (hpc ▸ trivial) ⟨Or.inl trivial, trivial⟩
  | destructorFlags k =>
      simp only [State.go, hpc, hext]
      exact ho.plain Counters.update (hpc ▸ trivial) ⟨Or.inl trivial, trivial⟩
  | destructorWeak k =>
      rw [hpc] at hvalid
      exact hvalid.elim
  | destructorStrong k =>
      simp only [State.go, hpc]
      refine ho.plain Counters.update (hpc ▸ trivial) ?_
      split
      · rename_i hinitial
        refine ⟨Or.inl trivial, fun hr => ?_⟩
        cases hr
        have hone := hl.destroying_initial (h.role_pos (t := t) (by rw [hpc]; rfl))
        have hzero := ((h.strong_eq_initial_iff hl hw).1 hinitial).1
        omega
      · exact k.pc_plain
  | weakLoad k =>
      simp only [State.go, hpc]
      exact ho.plain Counters.update (hpc ▸ trivial)
        (Pc.plain_ite ⟨Or.inl trivial, trivial⟩ k.pc_plain)
  | weakSub k =>
      simp only [State.go, hpc]
      exact ho.plain Counters.update (hpc ▸ trivial)
        (Pc.plain_ite ⟨Or.inl trivial, trivial⟩ k.pc_plain)
  | weakFlags k =>
      simp only [State.go, hpc]
      exact ho.plain Counters.update (hpc ▸ trivial)
        (Pc.plain_ite ⟨Or.inl trivial, trivial⟩ ⟨Or.inl trivial, trivial⟩)
  | weakStrong k =>
      simp only [State.go, hpc]
      exact ho.plain Counters.update (hpc ▸ trivial)
        (Pc.plain_ite ⟨Or.inl trivial, trivial⟩ ⟨Or.inl trivial, fun hr => by cases hr⟩)
  | weakCallback k =>
      simp only [State.go, hpc]
      split
      · exact ho.plain Counters.update (hpc ▸ trivial) ⟨Or.inl trivial, trivial⟩
      · exact ho.plain Counters.update (hpc ▸ trivial) k.pc_plain
  | refLoad r =>
      rw [hpc] at hvalid
      simp only [State.go, hpc]
      exact ho.plain Counters.update (hpc ▸ trivial)
        (Pc.plain_ite ⟨Or.inl trivial, hvalid⟩ r.pc_plain)
  | refSub r =>
      simp only [State.go, hpc]
      exact ho.plain Counters.update (hpc ▸ trivial) r.pc_plain
  | attemptLoad w =>
      rw [hpc] at hvalid
      simp only [State.go, hpc]
      exact ho.goto Counters.update (hpc ▸ trivial)
        (Or.inl trivial) (valid_goto.2 hvalid)
  | attemptWeak w curCount =>
      simp only [State.go, hpc]
      exact ho.plain Counters.update (hpc ▸ trivial)
        (Pc.attemptLoop_plain w curCount)
  | attemptExchange w curCount =>
      simp only [State.go, hpc]
      split
      · exact ho.plain Counters.update (hpc ▸ trivial)
          (Pc.attemptSuccess_plain w curCount)
      · exact ho.plain Counters.update (hpc ▸ trivial) ⟨Or.inl trivial, trivial⟩
  | attemptReload w =>
      simp only [State.go, hpc]
      exact ho.plain Counters.update (hpc ▸ trivial) (Pc.attemptLoop_plain w _)
  | attemptNormal w curCount =>
      simp only [State.go, hpc, hext]
      exact ho.plain Counters.update (hpc ▸ trivial)
        (Pc.attemptFirstLoop_plain w curCount)
  | attemptFirstExchange w curCount =>
      simp only [State.go, hpc]
      split
      · exact ho.plain Counters.update (hpc ▸ trivial)
          (Pc.attemptSuccess_plain w curCount)
      · exact ho.plain Counters.update (hpc ▸ trivial) ⟨Or.inl trivial, trivial⟩
  | attemptFirstReload w =>
      simp only [State.go, hpc]
      exact ho.plain Counters.update (hpc ▸ trivial) (Pc.attemptFirstLoop_plain w _)
  | attemptExtended w curCount =>
      simp only [State.go, hpc, hext]
      exact ho.plain Counters.update (hpc ▸ trivial)
        (Pc.attemptSuccess_plain w curCount)
  | attemptAdd w =>
      rw [hpc] at hvalid
      exact hvalid.elim
  | attemptSub w =>
      simp only [State.go, hpc]
      exact ho.plain Counters.update (hpc ▸ trivial) ⟨Or.inl trivial, trivial⟩
  | attemptEnd w curCount =>
      simp only [State.go, hpc]
      exact ho.plain Counters.update (hpc ▸ trivial)
        (Pc.plain_ite ⟨Or.inl trivial, trivial⟩ ⟨Or.inl trivial, trivial⟩)
  | attemptPtr w =>
      rw [State.go_attemptPtr h hl ho hpc]
      exact ho.addSptr (hpc ▸ trivial)
  | newRef =>
      rw [hpc] at hvalid
      simp only [State.go, hpc]
      exact ho.using Counters.update rfl (hpc ▸ trivial)
        hvalid trivial ⟨trivial, rfl⟩
  | newAdd c =>
      rw [hpc] at hvalid
      obtain ⟨huse, rfl⟩ := hvalid
      have hone : int32 (0 + 1) = 1 := int32_eq (by omega) (by omega)
      simp only [State.go, hpc, if_true, hone]
      exact ho.using Counters.update rfl (hpc ▸ trivial) huse trivial ⟨trivial, rfl⟩
  | newWeak c => exact ho.go_newWeak hpc
  | copyAdd w => exact ho.go_copyAdd hpc hwithin
  | copyWeak w =>
      rw [hpc] at hvalid
      exact hvalid.elim
  | dropSub w => exact ho.go_dropSub hw hpc

end CUtils.RefBases.Threads
