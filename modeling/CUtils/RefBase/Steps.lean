import CUtils.RefBase.Interleaving

/-!
# The steps as moves of the ledger

One lemma for each step of a thread: which `Move` it is. The tests that the code makes on the counts
come out as the roles say, so most branches can only be taken one way.
-/

namespace CUtils.RefBases.Threads

variable {ι : Type} [Fintype ι] [DecidableEq ι]

variable {s : State ι} {l : Ledger} {t : ι} {spurious canPromote : Bool}

/-! ## Weak references -/

theorem Agrees.takeWeak {pc' : Pc} (h : Agrees s l)
    (hfree : 0 < l.weak ∨ l.base = 1 ∧ l.leavers = 0)
    (hrole : (s.threads t).pc.role = none) (hrole' : pc'.role = some .weak)
    (hrefs : pc'.refs = (s.threads t).pc.refs)
    (hwithin : ((s.setWeak (s.refs.weak + 1)).goto t pc').Within) :
    Follows l ((s.setWeak (s.refs.weak + 1)).goto t pc') := by
  refine h.follows (.takeWeak hfree) rfl hwithin Counters.update
    (by rw [hrole, hrole']) (by rw [hrefs]; rfl) fun _ hlt _ => h.numbers.setWeak rfl ?_ hlt
  rw [h.numbers.weak]
  rfl

theorem Agrees.go_weakLoad (h : Agrees s l) {k : WeakReturn}
    (hpc : (s.threads t).pc = .weakLoad k) (hwithin : (s.go t spurious canPromote).Within) :
    Follows l (s.go t spurious canPromote) := by
  have hpos := h.role_pos (r := .weak) (by rw [hpc]; rfl)
  have hweak : s.refs.weak > 0 := by
    rw [h.numbers.weak]
    unfold Ledger.weak
    omega
  simp only [State.go, hpc, if_pos hweak] at hwithin ⊢
  exact h.follows_stay rfl hwithin (by rw [hpc]; rfl) (by rw [hpc]; rfl)

theorem WeakReturn.pc_role (k : WeakReturn) : k.pc.role = none := by
  cases k <;> rfl

theorem WeakReturn.pc_refs (k : WeakReturn) : k.pc.refs = k.refs := by
  cases k <;> rfl

theorem Agrees.go_weakSub (h : Agrees s l) {k : WeakReturn}
    (hpc : (s.threads t).pc = .weakSub k) (hwithin : (s.go t spurious canPromote).Within) :
    Follows l (s.go t spurious canPromote) := by
  have hpos := h.role_pos (r := .weak) (by rw [hpc]; rfl)
  have hle : l.count .weak ≤ l.weak := Nat.le_add_left _ _
  have hn := h.numbers.weak
  simp only [State.go, hpc] at hwithin ⊢
  by_cases hone : l.weak = 1
  · rw [if_pos (by rw [hn]; exact congrArg Nat.cast hone)] at hwithin ⊢
    refine h.follows (.leave hpos hone) rfl hwithin Counters.update (by rw [hpc]; rfl)
      (by rw [hpc]; rfl) fun _ hlt _ => h.numbers.setWeak rfl ?_ hlt
    rw [hn]
    simp [Ledger.shift, Ledger.weak, Ledger.strong] at hone ⊢
    omega
  · rw [if_neg (by omega)] at hwithin ⊢
    refine h.follows (.dropWeak hpos (by omega)) rfl hwithin Counters.update
      (by rw [hpc, k.pc_role]; rfl) (by rw [hpc, k.pc_refs]; rfl)
      fun _ hlt _ => h.numbers.setWeak rfl ?_ hlt
    rw [hn]
    simp [Ledger.shift, Ledger.weak, Ledger.strong] at hone ⊢
    omega

theorem Agrees.go_weakFlags (h : Agrees s l) {k : WeakReturn}
    (hpc : (s.threads t).pc = .weakFlags k) (hwithin : (s.go t spurious canPromote).Within) :
    Follows l (s.go t spurious canPromote) := by
  simp only [State.go, hpc, h.numbers.extended] at hwithin ⊢
  exact h.follows_stay rfl hwithin (by rw [hpc]; rfl) (by rw [hpc]; rfl)

/-- Nobody holds a strong reference any more, so the strong count shows whether there was one. -/
theorem Agrees.go_weakStrong (h : Agrees s l) (hl : l.Sound) (hw : s.Within) {k : WeakReturn}
    (hpc : (s.threads t).pc = .weakStrong k) (hwithin : (s.go t spurious canPromote).Within) :
    Follows l (s.go t spurious canPromote) := by
  have hpos := h.role_pos (r := .last) (by rw [hpc]; rfl)
  have hle := hl.initial_le
  have hzero := hl.strong_eq_zero (hpos.trans_le (by unfold Ledger.leavers; omega))
  have hiff := h.strong_eq_initial_iff hl hw
  simp only [State.go, hpc] at hwithin ⊢
  by_cases hinitial : l.initial = 1
  · rw [if_pos (hiff.2 ⟨hinitial, hzero⟩)] at hwithin ⊢
    exact h.follows (.abandon hpos hinitial) rfl hwithin Counters.update
      (by rw [hpc]; rfl) (by rw [hpc]; rfl) fun _ _ _ => h.numbers.shift rfl rfl
  · rw [if_neg fun heq => hinitial (hiff.1 heq).1] at hwithin ⊢
    exact h.follows (.close hpos (by omega)) rfl hwithin Counters.update
      (by rw [hpc]; rfl) (by rw [hpc]; rfl) fun _ _ _ => h.numbers.shift rfl rfl

theorem Agrees.go_weakCallback (h : Agrees s l) (hl : l.Sound) {k : WeakReturn}
    (hpc : (s.threads t).pc = .weakCallback k) (hwithin : (s.go t spurious canPromote).Within) :
    Follows l (s.go t spurious canPromote) := by
  have hpos := h.role_pos (r := .abandoning) (by rw [hpc]; rfl)
  have hcallback := h.numbers.callback (hl.abandoning_invoked hpos)
  simp only [State.go, hpc, if_pos hcallback] at hwithin ⊢
  refine h.follows (.bury hpos) rfl hwithin Counters.update (by rw [hpc]; rfl)
    (by rw [hpc]; rfl) fun _ _ _ => ?_
  have hn := h.numbers
  exact ⟨hn.strong, hn.weak, hn.refCount, hn.extended, nofun, congrArg (· + 1) hn.invoked, hn.freed⟩

/-! ## Strong references -/

theorem Agrees.go_incWeak (h : Agrees s l) (hl : l.Sound) (ho : Orderly s)
    (hpc : (s.threads t).pc = .incWeak) (hwithin : (s.go t spurious canPromote).Within) :
    Follows l (s.go t spurious canPromote) := by
  have huse : s.MayUse t := by
    have hvalid := ho.valid t
    rw [State.Valid, hpc] at hvalid
    exact hvalid
  simp only [State.go, hpc] at hwithin ⊢
  exact h.takeWeak (h.mayUse_weak hl ho huse (by rw [hpc]; rfl)) (by rw [hpc]; rfl) rfl
    (by rw [hpc]; rfl) hwithin

theorem Agrees.go_incLoad (h : Agrees s l) (hpc : (s.threads t).pc = .incLoad)
    (hwithin : (s.go t spurious canPromote).Within) : Follows l (s.go t spurious canPromote) := by
  simp only [State.go, hpc, ge_iff_le, if_pos h.numbers.strong_nonneg] at hwithin ⊢
  exact h.follows_stay rfl hwithin (by rw [hpc]; rfl) (by rw [hpc]; rfl)

/-- One is added to the strong count `curCount`: the holder of a weak reference has a strong one
too, and is the one to take the initial value off if it has found just that. -/
theorem Agrees.takeStrong {pc' : Pc} (h : Agrees s l) (hl : l.Sound) (hw : s.Within)
    (hsome : l.initial = 1 ∨ 0 < l.strong) (hrole : (s.threads t).pc.role = some .weak)
    (hrole' : pc'.role =
      some (if s.refs.strong = initialPrimaryValue then .starting else .strong))
    (hrefs : pc'.refs = (s.threads t).pc.refs)
    (hwithin : ((s.setStrong (s.refs.strong + 1)).goto t pc').Within) :
    Follows l ((s.setStrong (s.refs.strong + 1)).goto t pc') := by
  have hpos := h.role_pos hrole
  have hle := hl.initial_le
  have hiff := h.strong_eq_initial_iff hl hw
  have hn := h.numbers.strong
  by_cases hfirst : l.initial = 1 ∧ l.strong = 0
  · rw [if_pos (hiff.2 hfirst)] at hrole'
    refine h.follows (.takeFirst hpos hfirst.1 hfirst.2) rfl hwithin
      Counters.update (by rw [hrole, hrole']) (by rw [hrefs]; rfl)
      fun hlt _ _ => h.numbers.setStrong hle ?_ hlt ?_ rfl rfl rfl rfl
    · rw [hn]
      simp [Ledger.shift, Ledger.strong]
      omega
    · simp [Ledger.shift, Ledger.weak, Ledger.strong]
      omega
  · rw [if_neg fun heq => hfirst (hiff.1 heq)] at hrole'
    refine h.follows (.takeStrong hpos (by omega)) rfl hwithin
      Counters.update (by rw [hrole, hrole']) (by rw [hrefs]; rfl)
      fun hlt _ _ => h.numbers.setStrong hle ?_ hlt ?_ rfl rfl rfl rfl
    · rw [hn]
      simp [Ledger.shift, Ledger.strong]
      omega
    · simp [Ledger.shift, Ledger.weak, Ledger.strong]
      omega

theorem Agrees.go_incAdd (h : Agrees s l) (hl : l.Sound) (ho : Orderly s) (hw : s.Within)
    (hpc : (s.threads t).pc = .incAdd) (hwithin : (s.go t spurious canPromote).Within) :
    Follows l (s.go t spurious canPromote) := by
  have huse : s.MayUse t := by
    have hvalid := ho.valid t
    rw [State.Valid, hpc] at hvalid
    exact hvalid
  simp only [State.go, hpc] at hwithin ⊢
  refine h.takeStrong hl hw (h.mayUse_strong hl ho huse (by rw [hpc]; rfl)) (by rw [hpc]; rfl) ?_ ?_
    hwithin
  · split <;> rfl
  · rw [hpc]
    split <;> rfl

/-- The initial value is taken off. -/
theorem Agrees.takeOff {pc' : Pc} (h : Agrees s l) (hl : l.Sound)
    (hrole : (s.threads t).pc.role = some .starting) (hrole' : pc'.role = some .strong)
    (hrefs : pc'.refs = (s.threads t).pc.refs)
    (hwithin : ((s.setStrong (s.refs.strong - initialPrimaryValue)).goto t pc').Within) :
    Follows l ((s.setStrong (s.refs.strong - initialPrimaryValue)).goto t pc') := by
  have hpos := h.role_pos hrole
  have hinitial := hl.starting_initial hpos
  have hn := h.numbers.strong
  refine h.follows (.start hpos) rfl hwithin Counters.update (by rw [hrole, hrole'])
    (by rw [hrefs]; rfl) fun hlt _ _ => h.numbers.setStrong (Nat.zero_le 1) ?_ hlt ?_ rfl rfl rfl rfl
  · rw [hn, hinitial]
    simp [Ledger.shift, Ledger.strong]
    omega
  · simp [Ledger.shift, Ledger.weak, Ledger.strong]
    omega

theorem Agrees.go_incSub (h : Agrees s l) (hl : l.Sound) (hpc : (s.threads t).pc = .incSub)
    (hwithin : (s.go t spurious canPromote).Within) : Follows l (s.go t spurious canPromote) := by
  simp only [State.go, hpc] at hwithin ⊢
  exact h.takeOff hl (by rw [hpc]; rfl) rfl (by rw [hpc]; rfl) hwithin

theorem Agrees.go_decLoad (h : Agrees s l) (hl : l.Sound) (hw : s.Within)
    (hpc : (s.threads t).pc = .decLoad) (hwithin : (s.go t spurious canPromote).Within) :
    Follows l (s.go t spurious canPromote) := by
  have hpos := h.role_pos (r := .strong) (by rw [hpc]; rfl)
  have hstrong : 0 < l.strong := hpos.trans_le (Nat.le_add_left _ _)
  have hne : s.refs.strong ≠ initialPrimaryValue := by
    intro heq
    have hzero := ((h.strong_eq_initial_iff hl hw).1 heq).2
    omega
  have hgt : s.refs.strong > 0 := by
    rw [h.numbers.strong]
    unfold initialPrimaryValue
    omega
  simp only [State.go, hpc, if_neg hne, if_pos hgt] at hwithin ⊢
  exact h.follows_stay rfl hwithin (by rw [hpc]; rfl) (by rw [hpc]; rfl)

theorem Agrees.go_decSub (h : Agrees s l) (hl : l.Sound) (hpc : (s.threads t).pc = .decSub)
    (hwithin : (s.go t spurious canPromote).Within) : Follows l (s.go t spurious canPromote) := by
  have hpos := h.role_pos (r := .strong) (by rw [hpc]; rfl)
  have hle := hl.initial_le
  have hiff := h.strong_eq_one_iff hl
  have hn := h.numbers.strong
  simp only [State.go, hpc] at hwithin ⊢
  by_cases hlast : l.initial = 0 ∧ l.strong = 1
  · rw [if_pos (hiff.2 hlast)] at hwithin ⊢
    refine h.follows (.dropLast hpos hlast.1 hlast.2) rfl hwithin Counters.update
      (by rw [hpc]; rfl) (by rw [hpc]; rfl)
      fun hlt _ _ => h.numbers.setStrong hle ?_ hlt ?_ rfl rfl rfl rfl
    · rw [hn]
      simp [Ledger.shift, Ledger.strong]
      omega
    · simp [Ledger.shift, Ledger.weak, Ledger.strong]
      omega
  · rw [if_neg fun heq => hlast (hiff.1 heq)] at hwithin ⊢
    have hmore : l.initial = 1 ∨ 1 < l.strong := by
      unfold Ledger.strong at *
      omega
    refine h.follows (.dropStrong hpos hmore) rfl hwithin Counters.update
      (by rw [hpc]; rfl) (by rw [hpc]; rfl)
      fun hlt _ _ => h.numbers.setStrong hle ?_ hlt ?_ rfl rfl rfl rfl
    · rw [hn]
      simp [Ledger.shift, Ledger.strong]
      omega
    · simp [Ledger.shift, Ledger.weak, Ledger.strong]
      omega

theorem Agrees.go_decFlags (h : Agrees s l) (hpc : (s.threads t).pc = .decFlags)
    (hwithin : (s.go t spurious canPromote).Within) : Follows l (s.go t spurious canPromote) := by
  simp only [State.go, hpc, h.numbers.extended] at hwithin ⊢
  exact h.follows_stay rfl hwithin (by rw [hpc]; rfl) (by rw [hpc]; rfl)

theorem Agrees.go_decCallback (h : Agrees s l) (hl : l.Sound) (hpc : (s.threads t).pc = .decCallback)
    (hwithin : (s.go t spurious canPromote).Within) : Follows l (s.go t spurious canPromote) := by
  have hpos := h.role_pos (r := .dropping) (by rw [hpc]; rfl)
  have hcallback := h.numbers.callback (hl.dropping_invoked hpos)
  simp only [State.go, hpc, if_pos hcallback] at hwithin ⊢
  refine h.follows (.invoke hpos) rfl hwithin Counters.update (by rw [hpc]; rfl)
    (by rw [hpc]; rfl) fun _ _ _ => ?_
  have hn := h.numbers
  have hweak : (l.shift (some .dropping) (some .destroying)).weak = l.weak := by
    simp [Ledger.shift, Ledger.weak, Ledger.strong]
    omega
  exact ⟨hn.strong, hn.weak.trans (congrArg Nat.cast hweak.symm), hn.refCount, hn.extended,
    fun hnone => absurd hnone (Nat.succ_ne_zero _), congrArg (· + 1) hn.invoked, hn.freed⟩

/-! ## The destructor -/

theorem Agrees.go_removeCallback (h : Agrees s l) (hl : l.Sound) {k : CallbackReturn}
    (hpc : (s.threads t).pc = .removeCallback k) (hwithin : (s.go t spurious canPromote).Within) :
    Follows l (s.go t spurious canPromote) := by
  have hinvoked : l.invoked = 1 := by
    cases k with
    | decStrongRef => exact hl.destroying_invoked (h.role_pos (t := t) (by rw [hpc]; rfl))
    | decWeakRefCount k => exact (hl.burying_spec (h.role_pos (t := t) (by rw [hpc]; rfl))).2
  have hn := h.numbers
  simp only [State.go, hpc] at hwithin ⊢
  refine ⟨l, .stay, h.goto Counters.update ?_ (by rw [hpc]; rfl) hwithin fun _ _ _ =>
    ⟨hn.strong, hn.weak, hn.refCount, hn.extended, fun hzero => ?_, hn.invoked, hn.freed⟩⟩
  · rw [hpc]
    exact (h.shift_self (t := t) (by rw [hpc])).symm
  · omega

theorem Agrees.go_destructorFlags (h : Agrees s l) {k : CallbackReturn}
    (hpc : (s.threads t).pc = .destructorFlags k) (hwithin : (s.go t spurious canPromote).Within) :
    Follows l (s.go t spurious canPromote) := by
  simp only [State.go, hpc, h.numbers.extended] at hwithin ⊢
  exact h.follows_stay rfl hwithin (by rw [hpc]; rfl) (by rw [hpc]; rfl)

/-- The base reference is released here if the object never had a strong reference; else this is
left to the last weak reference. -/
theorem Agrees.go_destructorStrong (h : Agrees s l) (hl : l.Sound) (hw : s.Within)
    {k : CallbackReturn} (hpc : (s.threads t).pc = .destructorStrong k)
    (hwithin : (s.go t spurious canPromote).Within) : Follows l (s.go t spurious canPromote) := by
  have hiff := h.strong_eq_initial_iff hl hw
  cases k with
  | decStrongRef =>
      have hpos := h.role_pos (r := .destroying) (by rw [hpc]; rfl)
      have hinitial := hl.destroying_initial hpos
      simp only [State.go, hpc, if_neg fun heq => absurd (hiff.1 heq).1 (by omega)] at hwithin ⊢
      refine h.follows (.destroyed hpos) rfl hwithin Counters.update
        (by rw [hpc]; rfl) (by rw [hpc]; rfl) fun _ _ _ => h.numbers.shift rfl ?_
      simp [Ledger.shift, Ledger.weak, Ledger.strong]
      omega
  | decWeakRefCount k =>
      have hpos := h.role_pos (r := .burying) (by rw [hpc]; rfl)
      have hzero := hl.strong_eq_zero (hpos.trans_le (by unfold Ledger.leavers; omega))
      simp only [State.go, hpc, if_pos (hiff.2 ⟨(hl.burying_spec hpos).1, hzero⟩)] at hwithin ⊢
      exact h.follows_stay rfl hwithin (by rw [hpc]; rfl) (by rw [hpc]; rfl)

/-! ## `DecRefCount` -/

omit [DecidableEq ι] in
theorem Agrees.refCount_pos (h : Agrees s l) (hl : l.Sound) {r : RefReturn}
    (hrole : (s.threads t).pc.role = r.role) (hrefs : (s.threads t).pc.refs = r.refs)
    (hr : r ≠ .destructor .decStrongRef) : 0 < s.refs.refCount := by
  rw [h.numbers.refCount]
  cases r with
  | destructor k =>
      cases k with
      | decStrongRef => exact absurd rfl hr
      | decWeakRefCount k =>
          have hpos : 0 < l.count .burying := h.role_pos hrole
          have hbase := hl.phase.leaver_base (Or.inr (hpos.trans_le (by unfold Ledger.leavers; omega)))
          omega
  | decWeakRefCount k =>
      have hpos : 0 < l.count .closing := h.role_pos hrole
      have hbase := hl.phase.leaver_base (Or.inr (hpos.trans_le (by unfold Ledger.leavers; omega)))
      omega
  | wrc =>
      have hpos := h.refs_pos hrefs
      omega

theorem Agrees.go_refLoad (h : Agrees s l) (hl : l.Sound) (ho : Orderly s) {r : RefReturn}
    (hpc : (s.threads t).pc = .refLoad r) (hwithin : (s.go t spurious canPromote).Within) :
    Follows l (s.go t spurious canPromote) := by
  have hr : r ≠ .destructor .decStrongRef := by
    have hvalid := ho.valid t
    rw [State.Valid, hpc] at hvalid
    exact hvalid
  have hpos := h.refCount_pos hl (t := t) (by rw [hpc]; rfl) (by rw [hpc]; rfl) hr
  simp only [State.go, hpc, gt_iff_lt, if_pos hpos] at hwithin ⊢
  exact h.follows_stay rfl hwithin (by rw [hpc]; rfl) (by rw [hpc]; rfl)

/-- One reference on the counter is given up, and the counter is deleted with the last. -/
theorem Agrees.dropRef {l₁ : Ledger} {pc' : Pc} (h : Agrees s l) (hl : l.Sound)
    (hmove : Ledger.Move l l₁.settle)
    (hcount : l₁.count = (l.shift (s.threads t).pc.role pc'.role).count)
    (hrefs : l₁.refs + (s.threads t).pc.refs = l.refs + pc'.refs)
    (hone : l₁.refs + l₁.base + 1 = l.refs + l.base) (hbase : l₁.base ≤ l.base)
    (hinitial : l₁.initial = l.initial) (hstrong : l₁.strong = l.strong) (hweak : l₁.weak = l.weak)
    (hinvoked : l₁.invoked = l.invoked) (hfreed : l₁.freed = l.freed)
    (hwithin : ({ s.setRefCount (s.refs.refCount - 1) with
      freed := if s.refs.refCount = 1 then s.freed + 1 else s.freed }.goto t pc').Within) :
    Follows l ({ s.setRefCount (s.refs.refCount - 1) with
      freed := if s.refs.refCount = 1 then s.freed + 1 else s.freed }.goto t pc') := by
  refine h.follows hmove rfl hwithin Counters.update hcount hrefs fun _ _ hlt => ?_
  have hn := h.numbers
  have hle := hl.base_le
  have hrefs' : l₁.refs + 1 < 2 ^ 31 := hlt
  refine ⟨?_, hn.weak.trans (congrArg Nat.cast hweak.symm), ?_, hn.extended, ?_,
    hn.invoked.trans hinvoked.symm, ?_⟩
  · show s.refs.strong = (l₁.strong : Int) + initialPrimaryValue * l₁.initial
    rw [hn.strong, hstrong, hinitial]
  · show int32 (s.refs.refCount - 1) = (l₁.refs : Int) + l₁.base
    rw [hn.refCount, int32_eq (by omega) (by omega)]
    omega
  · show l₁.invoked = 0 → _
    rw [hinvoked]
    exact hn.callback
  · show (if s.refs.refCount = 1 then s.freed + 1 else s.freed) =
      if l₁.refs + l₁.base = 0 then l₁.freed + 1 else l₁.freed
    rw [hn.refCount, hn.freed, hfreed]
    congr 1
    exact propext ⟨fun _ => by omega, fun _ => by omega⟩

theorem Agrees.go_refSub (h : Agrees s l) (hl : l.Sound) (ho : Orderly s) {r : RefReturn}
    (hpc : (s.threads t).pc = .refSub r) (hwithin : (s.go t spurious canPromote).Within) :
    Follows l (s.go t spurious canPromote) := by
  have hr : r ≠ .destructor .decStrongRef := by
    have hvalid := ho.valid t
    rw [State.Valid, hpc] at hvalid
    exact hvalid
  simp only [State.go, hpc] at hwithin ⊢
  cases r with
  | destructor k =>
      cases k with
      | decStrongRef => exact absurd rfl hr
      | decWeakRefCount k =>
          have hpos := h.role_pos (r := .burying) (by rw [hpc]; rfl)
          have hbase := hl.phase.leaver_base (Or.inr (hpos.trans_le (by unfold Ledger.leavers; omega)))
          refine h.dropRef hl (.buried hpos) ?_ ?_ (by rw [hbase]; rfl) (Nat.zero_le _) rfl rfl rfl rfl
            rfl hwithin
          · rw [hpc]
            simp only [RefReturn.pc, CallbackReturn.pc, k.pc_role]
            rfl
          · rw [hpc]
            simp only [RefReturn.pc, CallbackReturn.pc, k.pc_refs]
            rfl
  | decWeakRefCount k =>
      have hpos := h.role_pos (r := .closing) (by rw [hpc]; rfl)
      have hbase := hl.phase.leaver_base (Or.inr (hpos.trans_le (by unfold Ledger.leavers; omega)))
      refine h.dropRef hl (.closed hpos) ?_ ?_ (by rw [hbase]; rfl) (Nat.zero_le _) rfl rfl rfl rfl rfl
        hwithin
      · rw [hpc]
        simp only [RefReturn.pc, k.pc_role]
        rfl
      · rw [hpc]
        simp only [RefReturn.pc, k.pc_refs]
        rfl
  | wrc =>
      have hpos := h.refs_pos (t := t) (n := 0) (by rw [hpc]; rfl)
      refine h.dropRef hl (.dropRef hpos) (by rw [hpc]; rfl) ?_ ?_ le_rfl rfl rfl rfl rfl rfl
        hwithin
      · rw [hpc]
        show l.refs - 1 + 1 = l.refs + 0
        omega
      · show l.refs - 1 + l.base + 1 = l.refs + l.base
        omega

/-! ## `AttemptIncStrongRef` -/

theorem Pc.attemptLoop_role (w : Nat) (curCount : Int) :
    (Pc.attemptLoop w curCount).role = some .weak ∧ (Pc.attemptLoop w curCount).refs = 0 := by
  unfold Pc.attemptLoop
  split
  · exact ⟨rfl, rfl⟩
  · split <;> exact ⟨rfl, rfl⟩

theorem Pc.attemptFirstLoop_role (w : Nat) (curCount : Int) :
    (Pc.attemptFirstLoop w curCount).role = some .weak ∧
      (Pc.attemptFirstLoop w curCount).refs = 0 := by
  unfold Pc.attemptFirstLoop
  split <;> exact ⟨rfl, rfl⟩

theorem Pc.attemptSuccess_refs (w : Nat) (curCount : Int) :
    (Pc.attemptSuccess w curCount).refs = 0 := by
  unfold Pc.attemptSuccess
  split
  · rfl
  · split <;> rfl

theorem Pc.attemptSuccess_role {w : Nat} {curCount : Int} (hpos : 0 < curCount) :
    (Pc.attemptSuccess w curCount).role =
      some (if curCount = initialPrimaryValue then .starting else .strong) := by
  unfold Pc.attemptSuccess
  split
  · rfl
  · rw [if_neg (by omega)]
    exact if_pos hpos

theorem Pc.attemptSuccess_role_weak {w : Nat} {curCount : Int} (hle : curCount ≤ 0) :
    (Pc.attemptSuccess w curCount).role = some .weak := by
  unfold Pc.attemptSuccess
  rw [if_neg (by unfold initialPrimaryValue; omega)]
  split
  · rfl
  · exact if_neg (by omega)

theorem Agrees.go_attemptLoad (h : Agrees s l) {w : Nat} (hpc : (s.threads t).pc = .attemptLoad w)
    (hwithin : (s.go t spurious canPromote).Within) : Follows l (s.go t spurious canPromote) := by
  simp only [State.go, hpc] at hwithin ⊢
  exact h.follows_stay rfl hwithin (by rw [hpc]; rfl) (by rw [hpc]; rfl)

theorem Agrees.go_attemptWeak (h : Agrees s l) (ho : Orderly s) {w : Nat} {curCount : Int}
    (hpc : (s.threads t).pc = .attemptWeak w curCount)
    (hwithin : (s.go t spurious canPromote).Within) : Follows l (s.go t spurious canPromote) := by
  have hwptrs : 0 < (s.threads t).wptrs w := by
    have hvalid := ho.valid t
    rw [State.Valid, hpc] at hvalid
    exact hvalid
  simp only [State.go, hpc] at hwithin ⊢
  exact h.takeWeak (Or.inl (h.weak_pos ho hwptrs)) (by rw [hpc]; rfl) (Pc.attemptLoop_role _ _).1
    (by rw [hpc, (Pc.attemptLoop_role _ _).2]; rfl) hwithin

/-- A compare-exchange that has found the count as it was, and not zero. -/
theorem Agrees.exchange (h : Agrees s l) (hl : l.Sound) (hw : s.Within) {w : Nat} {curCount : Int}
    (hrole : (s.threads t).pc.role = some .weak) (hrefs : (s.threads t).pc.refs = 0)
    (hpos : 0 < curCount) (heq : s.refs.strong = curCount)
    (hwithin : ((s.setStrong (curCount + 1)).goto t (.attemptSuccess w curCount)).Within) :
    Follows l ((s.setStrong (curCount + 1)).goto t (.attemptSuccess w curCount)) := by
  subst heq
  have hsome : l.initial = 1 ∨ 0 < l.strong := by
    have hle := hl.initial_le
    rw [h.numbers.strong] at hpos
    by_contra hnone
    have hinitial : l.initial = 0 := by omega
    rw [hinitial] at hpos
    omega
  exact h.takeStrong hl hw hsome hrole (Pc.attemptSuccess_role hpos)
    (by rw [hrefs, Pc.attemptSuccess_refs]) hwithin

/-- A compare-exchange: the count is taken up, or it is tried again. -/
theorem Agrees.tryExchange (h : Agrees s l) (hl : l.Sound) (hw : s.Within) {w : Nat}
    {curCount : Int} {retry : Pc} (hrole : (s.threads t).pc.role = some .weak)
    (hrefs : (s.threads t).pc.refs = 0) (hretry : retry.role = some .weak ∧ retry.refs = 0)
    (hpos : 0 < curCount)
    (hwithin : (if s.refs.strong = curCount ∧ !spurious then
        (s.setStrong (curCount + 1)).goto t (.attemptSuccess w curCount)
      else s.goto t retry).Within) :
    Follows l (if s.refs.strong = curCount ∧ !spurious then
        (s.setStrong (curCount + 1)).goto t (.attemptSuccess w curCount)
      else s.goto t retry) := by
  split at hwithin
  · rename_i heq
    rw [if_pos heq]
    exact h.exchange hl hw hrole hrefs hpos heq.1 hwithin
  · rename_i hne
    rw [if_neg hne]
    exact h.follows_stay rfl hwithin (by rw [hrole, hretry.1]) (by rw [hrefs, hretry.2])

theorem Agrees.go_attemptExchange (h : Agrees s l) (hl : l.Sound) (ho : Orderly s) (hw : s.Within)
    {w : Nat} {curCount : Int} (hpc : (s.threads t).pc = .attemptExchange w curCount)
    (hwithin : (s.go t spurious canPromote).Within) : Follows l (s.go t spurious canPromote) := by
  have hvalid := ho.valid t
  simp only [State.Valid, Pc.Valid, hpc] at hvalid
  simp only [State.go, hpc] at hwithin ⊢
  exact h.tryExchange hl hw (by rw [hpc]; rfl) (by rw [hpc]; rfl) ⟨rfl, rfl⟩ hvalid.1 hwithin

theorem Agrees.go_attemptReload (h : Agrees s l) {w : Nat}
    (hpc : (s.threads t).pc = .attemptReload w) (hwithin : (s.go t spurious canPromote).Within) :
    Follows l (s.go t spurious canPromote) := by
  simp only [State.go, hpc] at hwithin ⊢
  exact h.follows_stay rfl hwithin (by rw [hpc, (Pc.attemptLoop_role _ _).1]; rfl)
    (by rw [hpc, (Pc.attemptLoop_role _ _).2]; rfl)

theorem Agrees.go_attemptNormal (h : Agrees s l) {w : Nat} {curCount : Int}
    (hpc : (s.threads t).pc = .attemptNormal w curCount)
    (hwithin : (s.go t spurious canPromote).Within) : Follows l (s.go t spurious canPromote) := by
  simp only [State.go, hpc, h.numbers.extended] at hwithin ⊢
  exact h.follows_stay rfl hwithin (by rw [hpc]; exact (Pc.attemptFirstLoop_role _ _).1)
    (by rw [hpc]; exact (Pc.attemptFirstLoop_role _ _).2)

theorem Agrees.go_attemptFirstExchange (h : Agrees s l) (hl : l.Sound) (ho : Orderly s)
    (hw : s.Within) {w : Nat} {curCount : Int}
    (hpc : (s.threads t).pc = .attemptFirstExchange w curCount)
    (hwithin : (s.go t spurious canPromote).Within) : Follows l (s.go t spurious canPromote) := by
  have hvalid := ho.valid t
  simp only [State.Valid, Pc.Valid, hpc] at hvalid
  simp only [State.go, hpc] at hwithin ⊢
  exact h.tryExchange hl hw (by rw [hpc]; rfl) (by rw [hpc]; rfl) ⟨rfl, rfl⟩ hvalid hwithin

theorem Agrees.go_attemptFirstReload (h : Agrees s l) {w : Nat}
    (hpc : (s.threads t).pc = .attemptFirstReload w)
    (hwithin : (s.go t spurious canPromote).Within) : Follows l (s.go t spurious canPromote) := by
  simp only [State.go, hpc] at hwithin ⊢
  exact h.follows_stay rfl hwithin (by rw [hpc, (Pc.attemptFirstLoop_role _ _).1]; rfl)
    (by rw [hpc, (Pc.attemptFirstLoop_role _ _).2]; rfl)

theorem Agrees.go_attemptExtended (h : Agrees s l) (ho : Orderly s) {w : Nat} {curCount : Int}
    (hpc : (s.threads t).pc = .attemptExtended w curCount)
    (hwithin : (s.go t spurious canPromote).Within) : Follows l (s.go t spurious canPromote) := by
  have hle := ho.valid t
  simp only [State.Valid, Pc.Valid, hpc] at hle
  simp only [State.go, hpc, h.numbers.extended] at hwithin ⊢
  exact h.follows_stay rfl hwithin (by rw [hpc]; exact Pc.attemptSuccess_role_weak hle)
    (by rw [hpc]; exact Pc.attemptSuccess_refs _ _)

theorem Agrees.go_attemptSub (h : Agrees s l) (hl : l.Sound) {w : Nat}
    (hpc : (s.threads t).pc = .attemptSub w) (hwithin : (s.go t spurious canPromote).Within) :
    Follows l (s.go t spurious canPromote) := by
  simp only [State.go, hpc] at hwithin ⊢
  exact h.takeOff hl (by rw [hpc]; rfl) rfl (by rw [hpc]; rfl) hwithin

theorem Agrees.go_attemptEnd (h : Agrees s l) (ho : Orderly s) {w : Nat} {curCount : Int}
    (hpc : (s.threads t).pc = .attemptEnd w curCount)
    (hwithin : (s.go t spurious canPromote).Within) : Follows l (s.go t spurious canPromote) := by
  have hle := ho.valid t
  simp only [State.Valid, Pc.Valid, hpc] at hle
  simp only [State.go, hpc, h.numbers.extended] at hwithin ⊢
  by_cases hzero : curCount = 0
  · rw [if_pos ⟨rfl, hzero⟩] at hwithin ⊢
    refine h.follows_stay rfl hwithin ?_ (by rw [hpc]; rfl)
    rw [hpc]
    exact (if_neg (by omega)).symm
  · rw [if_neg fun hboth => hzero hboth.2] at hwithin ⊢
    refine h.follows_stay rfl hwithin ?_ (by rw [hpc]; rfl)
    rw [hpc]
    exact (if_pos (by omega)).symm

/-! ## Pointers -/

/-- A thread takes another step or other pointers in the same role. -/
theorem Agrees.setThread {s₀ : State ι} (h : Agrees s l) (hthreads : s₀.threads = s.threads)
    (hwrcs : s₀.wrcs = s.wrcs) (hnumbers : Numbers s₀ l) {x : Local}
    (hcount : ∀ r, x.count r = (s.threads t).count r) (hrefs : x.pc.refs = (s.threads t).pc.refs) :
    Agrees (s₀.setThread t x) l := by
  refine ⟨fun r => ?_, ?_, ?_⟩
  · have hset := count_setThread s₀ t x r
    have hsame : s₀.count r = s.count r := by
      unfold State.count
      rw [hthreads, hwrcs]
    rw [hthreads, hsame, h.count, hcount] at hset
    omega
  · have hset := counterRefs_setThread s₀ t x
    have hsame : s₀.counterRefs = s.counterRefs := by
      unfold State.counterRefs
      rw [hthreads, hwrcs]
    rw [hthreads, hsame, h.refs, hrefs] at hset
    omega
  · exact ⟨hnumbers.strong, hnumbers.weak, hnumbers.refCount, hnumbers.extended, hnumbers.callback,
      hnumbers.invoked, hnumbers.freed⟩

theorem Agrees.addSptr (h : Agrees s l) (hrole : (s.threads t).pc.role = some .strong)
    (hrefs : (s.threads t).pc.refs = 0) : Agrees (s.addSptr t) l := by
  refine h.setThread rfl rfl h.numbers (fun r => ?_) hrefs.symm
  simp only [Local.count, hrole, Option.some.injEq]
  by_cases hr : r = .strong
  · subst hr
    simp [Pc.role]
    omega
  · simp [Pc.role, hr, Ne.symm hr]

theorem Agrees.go_incFlags (h : Agrees s l) (hpc : (s.threads t).pc = .incFlags) :
    Follows l (s.go t spurious canPromote) := by
  simp only [State.go, hpc]
  exact ⟨l, .stay, h.addSptr (by rw [hpc]; rfl) (by rw [hpc]; rfl)⟩

/-- The object is still there for the thread that holds a strong reference. -/
theorem State.go_attemptPtr (h : Agrees s l) (hl : l.Sound) (ho : Orderly s) {w : Nat}
    (hpc : (s.threads t).pc = .attemptPtr w) : s.go t spurious canPromote = s.addSptr t := by
  have hpos := h.role_pos (r := .strong) (by rw [hpc]; rfl)
  have hinvoked := hl.invoked_eq_zero (hpos.trans_le (Nat.le_add_left _ _))
  have hself : Function.update s.wrc w { s.wrc w with cookie := true } = s.wrc := by
    rw [← ho.cookie w]
    exact Function.update_eq_self w s.wrc
  simp only [State.go, hpc, ho.cookie, h.numbers.callback hinvoked, Bool.and_self, if_true, hself]

theorem Agrees.go_newRef (h : Agrees s l) (hl : l.Sound) (ho : Orderly s)
    (hpc : (s.threads t).pc = .newRef) (hwithin : (s.go t spurious canPromote).Within) :
    Follows l (s.go t spurious canPromote) := by
  have huse : s.MayUse t := by
    have hvalid := ho.valid t
    rw [State.Valid, hpc] at hvalid
    exact hvalid
  have hbase : l.base = 1 := by
    rcases h.mayUse_weak hl ho huse (by rw [hpc]; rfl) with hweak | hbase
    · exact hl.phase.leaver_base (Or.inl hweak)
    · exact hbase.1
  have hn := h.numbers
  simp only [State.go, hpc] at hwithin ⊢
  refine h.follows (.takeRef (by omega)) rfl hwithin Counters.update
    (by rw [hpc]; rfl) (by rw [hpc]; rfl) fun _ _ hlt =>
      ⟨hn.strong, hn.weak, ?_, hn.extended, hn.callback, hn.invoked, hn.freed⟩
  show int32 (s.refs.refCount + 1) = _
  rw [hn.refCount, int32_eq (by omega) (by simp at hlt; omega)]
  simp
  omega

theorem Agrees.go_newAdd (h : Agrees s l) (ho : Orderly s) {c : WeakRefCounter}
    (hpc : (s.threads t).pc = .newAdd c) (hwithin : (s.go t spurious canPromote).Within) :
    Follows l (s.go t spurious canPromote) := by
  have hc : c.weak = 0 := by
    have hvalid := ho.valid t
    simp only [State.Valid, Pc.Valid, hpc] at hvalid
    rw [hvalid.2]
  simp only [State.go, hpc, if_pos hc] at hwithin ⊢
  exact h.follows_stay rfl hwithin (by rw [hpc]; rfl) (by rw [hpc]; rfl)

/-- A thread takes another step, and a `WeakRefCounter` comes or goes. -/
theorem Agrees.setWrcs {s₁ : State ι} {l' : Ledger} {x : Local} (h : Agrees s l)
    (hthreads : s₁.threads = s.threads)
    (hcount : ∀ r, (l'.count r + (s.threads t).count r) + (if r = .weak then s.wrcs.card else 0) =
      (l.count r + x.count r) + if r = .weak then s₁.wrcs.card else 0)
    (hrefs : (l'.refs + (s.threads t).pc.refs) + s.wrcs.card =
      (l.refs + x.pc.refs) + s₁.wrcs.card)
    (hwithin : (s₁.setThread t x).Within)
    (hnumbers : l'.strong < 2 ^ 28 → l'.weak < 2 ^ 31 → l'.refs + 1 < 2 ^ 31 → Numbers s₁ l') :
    Agrees (s₁.setThread t x) l' := by
  refine .of_counts (fun r => ?_) ?_ hwithin fun hstrong hweak hrefs => ?_
  · have hset := count_setThread s₁ t x r
    have hwrcs := count_wrcs hthreads r
    have hr := hcount r
    rw [hthreads] at hset
    rw [h.count] at hwrcs
    omega
  · have hset := counterRefs_setThread s₁ t x
    have hwrcs := counterRefs_wrcs hthreads
    rw [hthreads] at hset
    rw [h.refs] at hwrcs
    omega
  · have hn := hnumbers hstrong hweak hrefs
    exact ⟨hn.strong, hn.weak, hn.refCount, hn.extended, hn.callback, hn.invoked, hn.freed⟩

/-- A new `WeakRefCounter` holds a weak reference, and takes the reference on the counter over. -/
theorem Agrees.go_newWeak (h : Agrees s l) (hl : l.Sound) (ho : Orderly s) {c : WeakRefCounter}
    (hpc : (s.threads t).pc = .newWeak c) (hwithin : (s.go t spurious canPromote).Within) :
    Follows l (s.go t spurious canPromote) := by
  have huse : s.MayUse t := by
    have hvalid := ho.valid t
    simp only [State.Valid, Pc.Valid, hpc] at hvalid
    exact hvalid.1
  have hcard : (insert s.next s.wrcs).card = s.wrcs.card + 1 :=
    Finset.card_insert_of_notMem fun hmem => (ho.fresh _ hmem).false
  simp only [State.go, hpc] at hwithin ⊢
  refine ⟨_, .takeWeak (h.mayUse_weak hl ho huse (by rw [hpc]; rfl)), h.setWrcs rfl (fun r => ?_) ?_
    hwithin fun _ hlt _ => ?_⟩
  · simp only [Ledger.shift, Local.count, hpc, Pc.role, State.setWeak, hcard]
    by_cases hr : r = .weak
    · subst hr
      simp
      omega
    · simp [hr, Ne.symm hr]
  · simp only [Ledger.shift, hpc, Pc.refs, State.setWeak, hcard]
    omega
  · have hn := h.numbers.setWeak (n := s.refs.weak + 1) rfl (by rw [h.numbers.weak]; rfl) hlt
    exact ⟨hn.strong, hn.weak, hn.refCount, hn.extended, hn.callback, hn.invoked, hn.freed⟩

theorem Agrees.addWptr {s₀ : State ι} (h : Agrees s l) (hthreads : s₀.threads = s.threads)
    (hwrcs : s₀.wrcs = s.wrcs) (hnumbers : Numbers s₀ l) (hrole : (s.threads t).pc.role = none)
    (hrefs : (s.threads t).pc.refs = 0) (w : Nat) : Agrees (s₀.addWptr t w) l := by
  refine h.setThread hthreads hwrcs hnumbers (fun r => ?_) hrefs.symm
  have hidle : Pc.idle.role = none := rfl
  rw [hthreads]
  simp only [Local.count, hrole, hidle]

omit [DecidableEq ι] in
theorem Orderly.weak_pos (ho : Orderly s) {w : Nat} (hheld : 0 < (s.threads t).held w) :
    0 < (s.wrc w).weak := ho.pos w (ho.mem_wrcs hheld)

theorem Agrees.go_copyAdd (h : Agrees s l) (ho : Orderly s) {w : Nat}
    (hpc : (s.threads t).pc = .copyAdd w) : Follows l (s.go t spurious canPromote) := by
  have hwptrs : 0 < (s.threads t).wptrs w := by
    have hvalid := ho.valid t
    rw [State.Valid, hpc] at hvalid
    exact hvalid
  have hpos := ho.weak_pos (hwptrs.trans_le (Nat.le_add_right _ _))
  have hn := h.numbers
  simp only [State.go, hpc, if_neg hpos.ne']
  refine ⟨l, .stay, ?_⟩
  refine h.addWptr ?_ ?_ ?_ (by rw [hpc]; rfl) (by rw [hpc]; rfl) w
  · rfl
  · rfl
  · exact ⟨hn.strong, hn.weak, hn.refCount, hn.extended, hn.callback, hn.invoked, hn.freed⟩

/-- With its last `wptr` the `WeakRefCounter` leaves its references to the thread. -/
theorem Agrees.go_dropSub (h : Agrees s l) (ho : Orderly s) {w : Nat}
    (hpc : (s.threads t).pc = .dropSub w) (hwithin : (s.go t spurious canPromote).Within) :
    Follows l (s.go t spurious canPromote) := by
  have hheld : 0 < (s.threads t).held w := by
    rw [Local.held, hpc]
    simp
  have hmem := ho.mem_wrcs hheld
  have hcard : (s.wrcs.erase w).card + 1 = s.wrcs.card := Finset.card_erase_add_one hmem
  have hn := h.numbers
  simp only [State.go, hpc] at hwithin ⊢
  split at hwithin
  · rename_i hone
    rw [if_pos hone]
    refine ⟨l, .stay, h.setWrcs rfl (fun r => ?_) ?_ hwithin fun _ _ _ =>
      ⟨hn.strong, hn.weak, hn.refCount, hn.extended, hn.callback, hn.invoked, hn.freed⟩⟩
    · simp only [Local.count, hpc, Pc.role]
      by_cases hr : r = .weak
      · subst hr
        simp
        omega
      · simp [hr, Ne.symm hr]
    · simp only [hpc, Pc.refs, WeakReturn.refs]
      omega
  · rename_i hmore
    rw [if_neg hmore]
    refine ⟨l, .stay, ?_⟩
    refine h.setThread ?_ ?_ ?_ (fun r => ?_) (by rw [hpc]; rfl)
    · rfl
    · rfl
    · exact ⟨hn.strong, hn.weak, hn.refCount, hn.extended, hn.callback, hn.invoked, hn.freed⟩
    · simp [Local.count, hpc, Pc.role]

end CUtils.RefBases.Threads
