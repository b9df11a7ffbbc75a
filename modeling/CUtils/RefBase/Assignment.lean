import CUtils.RefBase.Taking

/-!
# Assignments to an `sptr`

`a = std::move(b)` and `a = w` release what `a` holds before they look at `b` or `w`. They do what
they should unless the release destroys what they still need: `a`, `b`, `w` or the object itself.
-/

namespace CUtils.RefBases

namespace Heap

variable {s h : Heap} {a b l w x c : Nat} {n : Int} {canPromote : Bool}

/-! ## The steps of an assignment -/

theorem incStrongRef_eq (hf : (h.refs x).Fits) : h.incStrongRef x = h.taken 1 x := by
  rw [incStrongRef, RefCounter.incStrong_eq hf, taken]

theorem incStrongRef_taken (hf : (h.refs x).Fits) :
    (h.taken 1 x).incStrongRef x = h.taken 2 x := by
  rw [incStrongRef, refs_taken_self, RefCounter.incStrong_taken hf, taken, setRefs_setRefs, taken]

theorem release_taken_two (hf : (h.refs x).Fits) (hcb : (h.refs x).callback = true) :
    (h.taken 2 x).release x = h.taken 1 x := by
  have hroom := hf.room
  have hb := hf.bounds
  unfold taken RefCounter.taken
  generalize (if (h.refs x).strong = initialPrimaryValue then 0 else (h.refs x).strong) = m at hb ⊢
  rw [release_setRefs]
  · congr 2
    · simp only
      omega
    · simp only
      omega
  · exact hcb
  all_goals
    simp only
    omega

theorem release_taken_one (hf : (h.refs x).Fits) (hcb : (h.refs x).callback = true)
    (hpos : 0 < (h.refs x).strong) (hne : (h.refs x).strong ≠ initialPrimaryValue) :
    (h.taken 1 x).release x = h := by
  have hroom := hf.room
  have hle := hf.strong.resolve_left hne
  unfold taken RefCounter.taken
  rw [if_neg hne, release_setRefs]
  · simp only [add_sub_cancel_right]
    simp [setRefs]
  · exact hcb
  all_goals
    simp only
    omega

theorem setPtr_taken (h : Heap) (n : Int) (x a : Nat) (p : Option Nat) :
    (h.taken n x).setPtr a p = (h.setPtr a p).taken n x := by
  unfold setPtr
  by_cases ha : a ∈ h.sptrs
  · rw [if_pos ha, if_pos (show a ∈ (h.taken n x).sptrs from ha)]
    rfl
  · rw [if_neg ha, if_neg (show a ∉ (h.taken n x).sptrs from ha)]
    rfl

theorem getRefPtr_eq (htarget : h.target w = some c) (hobject : h.object c = x)
    (hcookie : (h.wrc c).cookie = true) (hcb : (h.refs x).callback = true) :
    h.getRefPtr w = (some x, h) := by
  unfold getRefPtr
  simp [htarget, hcookie, hobject, hcb]

theorem getRefPtr_taken (htarget : h.target w = some c) (hobject : h.object c = x)
    (hcookie : (h.wrc c).cookie = true) (hcb : (h.refs x).callback = true) :
    (h.taken n x).getRefPtr w = (some x, h.taken n x) := by
  refine getRefPtr_eq htarget hobject hcookie ?_
  rw [refs_taken_self]
  exact hcb

/-- A promotion is denied. -/
def Vetoed (c : RefCounter) (canPromote : Bool) : Prop :=
  c.extended = true ∧ canPromote = false ∧ (c.strong = 0 ∨ c.strong = initialPrimaryValue)

theorem attempt_of_not_vetoed (hf : (h.refs x).Fits) (hv : ¬Vetoed (h.refs x) canPromote)
    (hnormal : (h.refs x).extended = false → (h.refs x).strong ≠ 0) :
    h.attemptIncStrongRef x canPromote = (true, h.taken 1 x) := by
  have hinit : initialPrimaryValue = 2 ^ 28 := rfl
  have hroom := hf.room
  have hnonneg := hf.nonneg
  -- from the addition on
  have hadded : (h.setRefs x { h.refs x with
        weak := int32 ((h.refs x).weak + 1)
        strong := int32 ((h.refs x).strong + 1) }).attemptSuccess x (h.refs x).strong =
      (true, h.taken 1 x) := by
    rw [int32_eq (n := (h.refs x).weak + 1) (by omega) (by omega)]
    unfold attemptSuccess
    simp only [refs_setRefs_self]
    rcases hf.strong with hs | ⟨hlo, hhi⟩
    · rw [if_pos hs, hs, int32_eq (n := initialPrimaryValue + 1) (by omega) (by omega),
        setRefs_setRefs, taken, RefCounter.taken, if_pos hs]
      rfl
    · rw [if_neg (by omega), if_neg, int32_eq (n := (h.refs x).strong + 1) (by omega) (by omega),
        taken, RefCounter.taken, if_neg (by omega)]
      rintro (hneg | ⟨hext, hzero⟩)
      · omega
      · exact hnormal (by simpa using hext) hzero
  unfold attemptIncStrongRef
  simp only
  split_ifs with hcount hext hcan
  · exact hadded
  · refine absurd ⟨hext, by simpa using hcan, ?_⟩ hv
    have hs := hf.strong
    omega
  · exact hadded
  · exfalso
    have hext : (h.refs x).extended = false := by simpa using hext
    have hs := hf.strong
    have hzero := hnormal hext
    refine hcount ?_
    rw [hext]
    simp only [Bool.not_false, and_true]
    omega

theorem attempt_of_vetoed (hv : Vetoed (h.refs x) canPromote) :
    (h.attemptIncStrongRef x canPromote).1 = false ∧
      ∃ c, (h.attemptIncStrongRef x canPromote).2 = h.setRefs x c := by
  obtain ⟨hext, hcan, hs⟩ := hv
  unfold attemptIncStrongRef
  simp only
  rw [if_neg, if_pos hext, if_pos (by simp [hcan])]
  · exact ⟨rfl, _, rfl⟩
  · have hinit : initialPrimaryValue = 2 ^ 28 := rfl
    rcases hs with hs | hs
    · simp [hs, hext]
    · simp [hs, hext]

/-! ## After the release -/

section

variable (hw : s.WellFormed) (ha : a ∈ s.sptrs) (hlost : ¬s.Lost a (.sptr a))
include hw ha hlost

theorem mem_sptrs_releaseOld :
    l ∈ (s.releaseOld a).sptrs ↔ l ∈ s.sptrs ∧ ¬s.Lost a (.sptr l) :=
  (Inv.release hw ha hlost).1.exists_iff hw (r := .sptr l)

theorem mem_wptrs_releaseOld :
    w ∈ (s.releaseOld a).wptrs ↔ w ∈ s.wptrs ∧ ¬s.Lost a (.wptr w) :=
  (Inv.release hw ha hlost).1.exists_iff hw (r := .wptr w)

theorem mem_alive_releaseOld : x ∈ (s.releaseOld a).alive ↔ x ∈ s.alive ∧ ¬s.Doomed a x :=
  (Inv.release hw ha hlost).1.mem_alive hw

theorem mem_holders_releaseOld :
    l ∈ (s.releaseOld a).holders (some a) x ↔
      l ∈ s.sptrs ∧ s.ptr l = some x ∧ l ≠ a ∧ ¬s.Lost a (.sptr l) := by
  rw [mem_holders, mem_sptrs_releaseOld hw ha hlost,
    (Inv.release hw ha hlost).1.core.shrinks.ptr]
  simp only [ne_eq, Option.some.injEq, eq_comm (a := a)]
  tauto

/-- What an `sptr` holds outlives the release, unless the `sptr` is `a` or lost. -/
theorem alive_of_holder (hl : l ∈ (s.releaseOld a).holders (some a) x) :
    x ∈ (s.releaseOld a).alive := by
  have hi := (Inv.release hw ha hlost).1
  obtain ⟨hls, hptr, -⟩ := (mem_holders_releaseOld hw ha hlost).1 hl
  by_contra hdead
  have hspent := hi.core.dying.spent x (hw.holds l hls x hptr) hdead
  simp [(hi.core.counted.holders_of_spent hspent).1] at hl

end

/-! ## A list of two nodes -/

/-- The `sptr` 0 is the head of the list and holds the node 0, whose member `next`, the `sptr` 1,
holds the node 1. The `sptr` 2 holds the node 1 as well, and the `wptr` 0 refers to the node 0. -/
def chain : Heap where
  alive := {0, 1}
  refs
    | 0 => { strong := 1, weak := 2, refCount := 2, callback := true }
    | 1 => { strong := 2, weak := 2, refCount := 1, callback := true }
    | _ => {}
  members
    | 0 => [.sptr 1]
    | _ => []
  sptrs := {0, 1, 2}
  ptr
    | 0 => some 0
    | _ => some 1
  wptrs := {0}
  target _ := some 0
  wrcs := {0}
  wrc _ := { weak := 1 }
  object _ := 0
  undefined := false

theorem chain_counted : chain.Counted none [] := by
  have hzero : chain.holders none 0 = {0} := by decide
  have hone : chain.holders none 1 = {1, 2} := by decide
  have hmore : ∀ x, chain.holders none (x + 2) = ∅ := by
    intro x
    rw [Finset.eq_empty_iff_forall_notMem]
    intro l hl
    obtain ⟨-, hptr, -⟩ := mem_holders.1 hl
    cases l <;> simp [chain] at hptr
  have hsharers : ∀ c, (chain.sharers c).card < 2 ^ 31 := by
    intro c
    refine lt_of_le_of_lt (Finset.card_filter_le _ _) ?_
    decide
  constructor
  · intro x
    rcases x with _ | _ | x
    · rw [hzero]
      decide
    · rw [hone]
      decide
    · rw [hmore]
      exact Or.inl ⟨rfl, rfl⟩
  · intro x
    rcases x with _ | _ | x
    · rw [hzero]
      decide
    · rw [hone]
      decide
    · rw [hmore]
      simp [chain, weaks]
  · intro x
    rcases x with _ | _ | x
    · decide
    · decide
    · change (0 : Int) + 2 < initialPrimaryValue
      decide
  · intro l _ c hc
    cases hc
    decide
  · decide
  · exact hsharers

theorem chain_wellFormed : chain.WellFormed := by
  refine ⟨chain_counted, ?_, ?_, ?_, ?_, ?_, ?_, ?_, rfl⟩
  · intro l _ x hx
    rcases l with _ | l <;> cases hx <;> decide
  · decide
  · intro x
    rcases x with _ | _ | x
    · decide
    · decide
    · simp [chain]
  · decide
  · intro x _ r hr
    rcases x with _ | x
    · have hr : r = .sptr 1 := by simpa [chain] using hr
      rw [hr]
      decide
    · simp [chain] at hr
  · decide
  · intro x _ y _ r hx hy
    rcases x with _ | x
    · rcases y with _ | y
      · rfl
      · simp [chain] at hy
    · simp [chain] at hx

theorem not_lost_chain {a : Nat} {r : Ref} (hr : r ≠ .sptr 1) : ¬chain.Lost a r := by
  rintro ⟨x, -, hmem, -⟩
  rcases x with _ | x
  · exact hr (by simpa [chain] using hmem)
  · simp [chain] at hmem

/-! ## `a = std::move(b)` -/

/-- The strong count is the number of `sptr`s. An object that never had one keeps the initial
value. -/
def StrongCounted (h : Heap) (x : Nat) : Prop :=
  (h.refs x).strong = initialPrimaryValue ∧ h.holders none x = ∅ ∨
    (h.refs x).strong = (h.holders none x).card

/-- What becomes of the heap `h` is the result of a move: `a` holds what `b` held. -/
structure Moved (h h' : Heap) (a b : Nat) : Prop where
  defined : h'.undefined = false
  holds : h'.ptr a = h.ptr b
  alive : ∀ x, h.ptr b = some x → x ∈ h'.alive
  null : b ≠ a → b ∈ h'.sptrs → h'.ptr b = none
  counted : ∀ x ∈ h'.alive, h'.StrongCounted x
  agrees : b ≠ a → h' = (h.copyAssign a b).clear b

/-- Nothing that the move still needs is destroyed by the release. -/
def MoveSafe (h : Heap) (a b : Nat) : Prop :=
  (b = a → h.ptr a = none) ∧ ¬h.Lost a (.sptr a) ∧ ¬h.Lost a (.sptr b)

theorem setPtr_of_mem (ha : a ∈ h.sptrs) (p : Option Nat) :
    h.setPtr a p = { h with ptr := Function.update h.ptr a p } :=
  if_pos ha

theorem setPtr_of_not_mem (ha : a ∉ h.sptrs) (p : Option Nat) :
    h.setPtr a p = { h with undefined := true } :=
  if_neg ha

/-- The pointers after a move. -/
def movedPtr (p : Nat → Option Nat) (a b : Nat) : Nat → Option Nat :=
  Function.update (Function.update p a (p b)) b none

theorem moveAssign_of_mem (ha : a ∈ (h.releaseOld a).sptrs) (hb : b ∈ (h.releaseOld a).sptrs) :
    h.moveAssign a b = { h.releaseOld a with ptr := movedPtr (h.releaseOld a).ptr a b } := by
  rw [moveAssign, if_pos hb, setPtr_of_mem ha]
  exact if_pos hb

/-- Where `b` gives up its reference, `a` has it. -/
theorem card_holders_moved (h : Heap) (ha : a ∈ h.sptrs) (hb : b ∈ h.sptrs)
    (hself : b = a → h.ptr a = none) (x : Nat) :
    (({ h with ptr := movedPtr h.ptr a b } : Heap).holders none x).card =
      (h.holders (some a) x).card := by
  by_cases hba : b = a
  · subst hba
    have hnull := hself rfl
    congr 1
    ext l
    by_cases hl : l = b
    · simp [mem_holders, movedPtr, hl]
    · simp [mem_holders, movedPtr, hl, Ne.symm hl]
  by_cases hbx : h.ptr b = some x
  · have hbmem : b ∈ h.holders (some a) x := mem_holders.2 ⟨hb, hbx, by simpa using Ne.symm hba⟩
    have hset : ({ h with ptr := movedPtr h.ptr a b } : Heap).holders none x =
        insert a ((h.holders (some a) x).erase b) := by
      ext l
      by_cases hla : l = a
      · simp [mem_holders, movedPtr, hla, Ne.symm hba, hbx, ha]
      · by_cases hlb : l = b
        · simp [mem_holders, movedPtr, hlb, hba]
        · simp [mem_holders, movedPtr, hla, hlb, Ne.symm hla]
    rw [hset, Finset.card_insert_of_notMem, Finset.card_erase_add_one hbmem]
    simp [mem_holders]
  · congr 1
    ext l
    by_cases hla : l = a
    · simp [mem_holders, movedPtr, hla, Ne.symm hba, hbx]
    · by_cases hlb : l = b
      · simp [mem_holders, movedPtr, hlb, hbx]
      · simp [mem_holders, movedPtr, hla, hlb, Ne.symm hla]

theorem clear_of_null (hb : b ∈ h.sptrs) (hnull : h.ptr b = none) : h.clear b = h := by
  rw [clear, if_pos hb, hnull]

theorem clear_of_holds (hb : b ∈ h.sptrs) (hx : h.ptr b = some x) :
    h.clear b = (h.release x).setPtr b none := by
  rw [clear, if_pos hb, hx]

theorem moveAssign_agrees (hw : s.WellFormed) (ha : a ∈ s.sptrs) (hb : b ∈ s.sptrs)
    (hsafe : s.MoveSafe a b) (hba : b ≠ a) : s.moveAssign a b = (s.copyAssign a b).clear b := by
  obtain ⟨-, hlosta, hlostb⟩ := hsafe
  obtain ⟨hi, ha'⟩ := Inv.release hw ha hlosta
  have hb' := (mem_sptrs_releaseOld hw ha hlosta).2 ⟨hb, hlostb⟩
  have hptr := hi.core.shrinks.ptr
  rw [moveAssign, if_pos hb', hptr]
  cases hx : s.ptr b with
  | none =>
      have hnull : ((s.releaseOld a).setPtr a none).ptr b = none := by
        rw [setPtr_of_mem ha']
        simp [hba, hptr, hx]
      have hmem : b ∈ ((s.releaseOld a).setPtr a none).sptrs := by
        rw [setPtr_of_mem ha']
        exact hb'
      rw [copyAssign, hx]
      simp only [take]
      rw [clear_of_null hmem hnull, setPtr_of_mem hmem]
      have hupdate := Function.update_eq_self b ((s.releaseOld a).setPtr a none).ptr
      rw [hnull] at hupdate
      rw [hupdate]
  | some x =>
      have hheld := (mem_holders_releaseOld hw ha hlosta).2 ⟨hb, hx, hba, hlostb⟩
      have halive := alive_of_holder hw ha hlosta hheld
      obtain ⟨hxs, hdoomed⟩ := (mem_alive_releaseOld hw ha hlosta).1 halive
      obtain ⟨hpos, hne⟩ := hi.core.counted.strong_pos hheld
      have hcopy : s.copyAssign a b = ((s.releaseOld a).setPtr a (some x)).taken 1 x := by
        rw [copyAssign, hx]
        simp only [take]
        rw [incStrongRef_eq (hw.counted.fits x),
          releaseOld_taken hw ha hlosta hxs hdoomed (by omega) (by omega), setPtr_taken]
      have hrefs : ((s.releaseOld a).setPtr a (some x)).refs = (s.releaseOld a).refs := by
        rw [setPtr_of_mem ha']
      have hmem : b ∈ (((s.releaseOld a).setPtr a (some x)).taken 1 x).sptrs := by
        rw [setPtr_of_mem ha']
        exact hb'
      have hholds : (((s.releaseOld a).setPtr a (some x)).taken 1 x).ptr b = some x := by
        rw [setPtr_of_mem ha', taken, ptr_setRefs]
        simp [hba, hptr, hx]
      rw [hcopy, clear_of_holds hmem hholds, release_taken_one]
      · rw [hrefs]
        exact hi.core.counted.fits x
      · rw [hrefs]
        exact hi.core.dying.called x halive
      · rwa [hrefs]
      · rwa [hrefs]

/-- A safe move leaves a well-formed heap. -/
theorem moveAssign_wellFormed (hw : s.WellFormed) (ha : a ∈ s.sptrs) (hb : b ∈ s.sptrs)
    (hsafe : s.MoveSafe a b) : (s.moveAssign a b).WellFormed := by
  obtain ⟨hself, hlosta, hlostb⟩ := hsafe
  obtain ⟨hi, ha'⟩ := Inv.release hw ha hlosta
  have hb' := (mem_sptrs_releaseOld hw ha hlosta).2 ⟨hb, hlostb⟩
  have hptr := hi.core.shrinks.ptr
  rw [moveAssign_of_mem ha' hb']
  refine hi.wellFormed hw (card_holders_moved _ ha' hb' (by rw [hptr]; exact hself)) ?_
  intro l hl x hx
  rw [hptr] at hx
  by_cases hlb : l = b
  · simp [movedPtr, hlb] at hx
  obtain ⟨hls, hlostl⟩ := (mem_sptrs_releaseOld hw ha hlosta).1 hl
  refine alive_of_holder hw ha hlosta (l := if l = a then b else l) ?_
  rw [mem_holders_releaseOld hw ha hlosta]
  split_ifs with hla
  · have hba : b ≠ a := fun hba => hlb (hla.trans hba.symm)
    exact ⟨hb, by simpa [movedPtr, hla, Ne.symm hba] using hx, hba, hlostb⟩
  · exact ⟨hls, by simpa [movedPtr, hla, hlb] using hx, hla, hlostl⟩

theorem moved_of_safe (hw : s.WellFormed) (ha : a ∈ s.sptrs) (hb : b ∈ s.sptrs)
    (hsafe : s.MoveSafe a b) : Moved s (s.moveAssign a b) a b := by
  obtain ⟨hself, hlosta, hlostb⟩ := hsafe
  obtain ⟨hi, ha'⟩ := Inv.release hw ha hlosta
  have hb' := (mem_sptrs_releaseOld hw ha hlosta).2 ⟨hb, hlostb⟩
  have hptr := hi.core.shrinks.ptr
  have hheld : ∀ x, b ≠ a → s.ptr b = some x → b ∈ (s.releaseOld a).holders (some a) x :=
    fun x hba hx => (mem_holders_releaseOld hw ha hlosta).2 ⟨hb, hx, hba, hlostb⟩
  constructor
  · rw [moveAssign_of_mem ha' hb']
    exact hi.core.defined
  · rw [moveAssign_of_mem ha' hb', hptr]
    by_cases hba : b = a
    · simp [movedPtr, hba, hself hba]
    · simp [movedPtr, Ne.symm hba]
  · rw [moveAssign_of_mem ha' hb']
    intro x hx
    by_cases hba : b = a
    · rw [hba, hself hba] at hx
      cases hx
    · exact alive_of_holder hw ha hlosta (hheld x hba hx)
  · rw [moveAssign_of_mem ha' hb']
    intro _ _
    simp [movedPtr]
  · intro x _
    have hs := (moveAssign_wellFormed hw ha hb ⟨hself, hlosta, hlostb⟩).counted.strong x
    simp only [List.count_nil, Int.natCast_zero, add_zero, Finset.card_eq_zero] at hs
    exact hs
  · exact moveAssign_agrees hw ha hb ⟨hself, hlosta, hlostb⟩

/-- A move does what it should if and only if the release destroys neither `a` nor `b`, and it is
not a move of `a`, which is not null, to itself. -/
theorem moveAssign_moves_iff (hw : h.WellFormed) (ha : a ∈ h.sptrs) (hb : b ∈ h.sptrs) :
    Moved h (h.moveAssign a b) a b ↔ h.MoveSafe a b := by
  refine ⟨fun hm => ?_, moved_of_safe hw ha hb⟩
  have hdefined := hm.defined
  have hlosta : ¬h.Lost a (.sptr a) := by
    intro hlost
    have ha' := not_mem_releaseOld hw ha hlost
    rw [moveAssign] at hdefined
    split_ifs at hdefined with hb'
    rw [setPtr_of_not_mem ha'] at hdefined
    unfold setPtr at hdefined
    split_ifs at hdefined
  have hlostb : ¬h.Lost a (.sptr b) := by
    intro hlost
    have hb' : b ∉ (h.releaseOld a).sptrs := fun hb' =>
      ((mem_sptrs_releaseOld hw ha hlosta).1 hb').2 hlost
    rw [moveAssign, if_neg hb'] at hdefined
    cases hdefined
  refine ⟨?_, hlosta, hlostb⟩
  rintro rfl
  have hb' := (Inv.release hw ha hlosta).2
  have hholds := hm.holds
  rw [moveAssign_of_mem hb' hb'] at hholds
  simpa [movedPtr] using hholds.symm

/-- The first node goes, with its `next`, and the head gets the second node from the `sptr` 2. -/
theorem moveAssign_moves_tail :
    chain.WellFormed ∧ 0 ∈ chain.sptrs ∧ 2 ∈ chain.sptrs ∧ (chain.moveAssign 0 2).alive = {1} ∧
      Moved chain (chain.moveAssign 0 2) 0 2 := by
  refine ⟨chain_wellFormed, by decide, by decide, by decide +kernel,
    (moveAssign_moves_iff chain_wellFormed (by decide) (by decide)).2 ⟨?_, ?_, ?_⟩⟩
  · decide
  · exact not_lost_chain (by decide)
  · exact not_lost_chain (by decide)

/-- `head = std::move(head->next)`: with the first node its `next` is gone. -/
theorem head_moved_from_next :
    chain.WellFormed ∧ 0 ∈ chain.sptrs ∧ 1 ∈ chain.sptrs ∧
      ¬Moved chain (chain.moveAssign 0 1) 0 1 := by
  refine ⟨chain_wellFormed, by decide, by decide, fun hm => ?_⟩
  have hundefined : (chain.moveAssign 0 1).undefined = true := by decide +kernel
  rw [hm.defined] at hundefined
  cases hundefined

/-! ## `a = w` -/

/-- What becomes of the heap `h`: `a` holds the object `x` of `w`, as after `a = w.promote()`. -/
structure Promoted (h h' : Heap) (a w x : Nat) (canPromote : Bool) : Prop where
  defined : h'.undefined = false
  holds : h'.ptr a = some x
  alive : x ∈ h'.alive
  agrees : h' = h.promoteAssign a w canPromote

/-- Nothing that the assignment still needs is destroyed by the release, and `CanPromote` is not
asked or agrees. -/
def PromoteSafe (h : Heap) (a w x : Nat) (canPromote : Bool) : Prop :=
  ¬h.Lost a (.sptr a) ∧ ¬h.Lost a (.wptr w) ∧ ¬h.Doomed a x ∧
    (canPromote = true ∨ (h.refs x).extended = false ∨
      ∃ l ∈ h.sptrs, h.ptr l = some x ∧ l ≠ a ∧ ¬h.Lost a (.sptr l))

/-- The promotion succeeds before the release. -/
theorem promote_eq (hw : s.WellFormed) (hwp : w ∈ s.wptrs) (ht : s.target w = some c)
    (hx : s.object c = x) (halive : x ∈ s.alive) (hsafe : s.PromoteSafe a w x canPromote) :
    s.promote w canPromote = (some x, s.taken 1 x) := by
  have hattempt : s.attemptIncStrongRef x canPromote = (true, s.taken 1 x) := by
    refine attempt_of_not_vetoed (hw.counted.fits x) ?_ (hw.kept x halive)
    rintro ⟨hext, hcan, hs⟩
    obtain ⟨-, -, -, hyes | hnormal | ⟨l, hl, hptr, -⟩⟩ := hsafe
    · rw [hcan] at hyes
      cases hyes
    · rw [hext] at hnormal
      cases hnormal
    · have hpos := hw.counted.strong_pos (mem_holders.2 ⟨hl, hptr, by simp⟩)
      omega
  unfold promote
  simp only [ht, hx, hattempt]
  exact getRefPtr_taken ht hx (hw.cookie c (hw.counted.wrcs w hwp c ht) (hx ▸ halive))
    ((hw.callback x).2 halive)

section

variable (hw : s.WellFormed) (ha : a ∈ s.sptrs) (hwp : w ∈ s.wptrs) (ht : s.target w = some c)
  (hx : s.object c = x) (halive : x ∈ s.alive)
include hw ha hwp ht hx halive

theorem promoteAssign_eq (hsafe : s.PromoteSafe a w x canPromote) :
    s.promoteAssign a w canPromote = ((s.releaseOld a).taken 1 x).setPtr a (some x) := by
  obtain ⟨hlosta, -, hdoomed, -⟩ := id hsafe
  obtain ⟨hi, ha'⟩ := Inv.release hw ha hlosta
  have hx' := (mem_alive_releaseOld hw ha hlosta).2 ⟨halive, hdoomed⟩
  have hrefs : ((s.releaseOld a).setPtr a (some x)).refs = (s.releaseOld a).refs := by
    rw [setPtr_of_mem ha']
  unfold promoteAssign
  rw [promote_eq hw hwp ht hx halive hsafe]
  simp only [take]
  rw [incStrongRef_taken (hw.counted.fits x),
    releaseOld_taken hw ha hlosta halive hdoomed (by omega) (by omega), setPtr_taken,
    release_taken_two, setPtr_taken]
  · rw [hrefs]
    exact hi.core.counted.fits x
  · rw [hrefs]
    exact hi.core.dying.called x hx'

theorem releaseOld_wptr (hlosta : ¬s.Lost a (.sptr a)) (hdoomed : ¬s.Doomed a x) :
    (s.releaseOld a).target w = some c ∧ (s.releaseOld a).object c = x ∧
      ((s.releaseOld a).wrc c).cookie = true ∧ ((s.releaseOld a).refs x).callback = true := by
  have hi := (Inv.release hw ha hlosta).1
  have hx' := (mem_alive_releaseOld hw ha hlosta).2 ⟨halive, hdoomed⟩
  refine ⟨?_, ?_, ?_, hi.core.dying.called x hx'⟩
  · rw [hi.core.shrinks.target, ht]
  · rw [hi.core.shrinks.object, hx]
  · rw [hi.core.shrinks.cookie]
    exact hw.cookie c (hw.counted.wrcs w hwp c ht) (hx ▸ halive)

/-- If the release leaves `w` and the object alone, the promotion is tried. -/
theorem assignWptr_attempt (hlosta : ¬s.Lost a (.sptr a)) (hlostw : ¬s.Lost a (.wptr w))
    (hdoomed : ¬s.Doomed a x) :
    s.assignWptr a w canPromote = (s.releaseOld a).assignAttempt a w x canPromote := by
  have hw' := (mem_wptrs_releaseOld hw ha hlosta).2 ⟨hwp, hlostw⟩
  obtain ⟨htarget, hobject, hcookie, hcb⟩ :=
    releaseOld_wptr hw ha hwp ht hx halive hlosta hdoomed
  unfold assignWptr
  simp only
  rw [if_pos hw', getRefPtr_eq htarget hobject hcookie hcb]

theorem assignWptr_eq (hsafe : s.PromoteSafe a w x canPromote) :
    s.assignWptr a w canPromote = ((s.releaseOld a).taken 1 x).setPtr a (some x) := by
  obtain ⟨hlosta, hlostw, hdoomed, hcan⟩ := hsafe
  obtain ⟨hi, ha'⟩ := Inv.release hw ha hlosta
  have hx' := (mem_alive_releaseOld hw ha hlosta).2 ⟨halive, hdoomed⟩
  have hattempt : (s.releaseOld a).attemptIncStrongRef x canPromote =
      (true, (s.releaseOld a).taken 1 x) := by
    refine attempt_of_not_vetoed (hi.core.counted.fits x) ?_ ?_
    · rintro ⟨hext, hno, hs⟩
      rw [hi.core.shrinks.extended] at hext
      obtain hyes | hnormal | ⟨l, hl⟩ := hcan
      · rw [hno] at hyes
        cases hyes
      · rw [hext] at hnormal
        cases hnormal
      · have hpos := hi.core.counted.strong_pos ((mem_holders_releaseOld hw ha hlosta).2 hl)
        omega
    · -- a counter without strong references would be spent
      intro hext hzero
      have hlasting : ¬((s.releaseOld a).refs x).Lasting := by
        unfold RefCounter.Lasting
        rw [hext, hzero]
        simpa using zero_ne_initial
      have hspent := hi.kept x hx' ⟨fun hl => absurd hl hlasting, fun _ => hzero⟩
      have hpos := hw.counted.weak_pos (r := .wptr w) hwp ⟨c, ht, hx⟩
      omega
  obtain ⟨htarget, hobject, hcookie, hcb⟩ :=
    releaseOld_wptr hw ha hwp ht hx halive hlosta hdoomed
  rw [assignWptr_attempt hw ha hwp ht hx halive hlosta hlostw hdoomed, assignAttempt, hattempt]
  simp only
  rw [getRefPtr_taken htarget hobject hcookie hcb]

theorem promoted_of_safe (hsafe : s.PromoteSafe a w x canPromote) :
    Promoted s (s.assignWptr a w canPromote) a w x canPromote := by
  obtain ⟨hi, ha'⟩ := Inv.release hw ha hsafe.1
  have hx' := (mem_alive_releaseOld hw ha hsafe.1).2 ⟨halive, hsafe.2.2.1⟩
  have heq := assignWptr_eq hw ha hwp ht hx halive hsafe
  refine ⟨?_, ?_, ?_, ?_⟩
  · rw [heq, setPtr_taken, setPtr_of_mem ha']
    exact hi.core.defined
  · rw [heq, setPtr_taken, setPtr_of_mem ha']
    simp [taken]
  · rw [heq, setPtr_taken, setPtr_of_mem ha']
    exact hx'
  · rw [heq, promoteAssign_eq hw ha hwp ht hx halive hsafe]

end

theorem shrinks_attemptSuccess (h : Heap) (x : Nat) (curCount : Int) :
    Shrinks h (h.attemptSuccess x curCount).2 := by
  unfold attemptSuccess
  simp only
  split_ifs
  · refine shrinks_setRefs h ?_
    rfl
  · exact shrinks_run h _
  · exact Shrinks.refl h

theorem shrinks_attempt (h : Heap) (x : Nat) (canPromote : Bool) :
    Shrinks h (h.attemptIncStrongRef x canPromote).2 := by
  have hset : ∀ (c : RefCounter) (curCount : Int), c.extended = (h.refs x).extended →
      Shrinks h ((h.setRefs x c).attemptSuccess x curCount).2 := fun c curCount hext =>
    (shrinks_setRefs h hext).trans (shrinks_attemptSuccess _ _ _)
  unfold attemptIncStrongRef
  simp only
  split_ifs
  · refine hset _ _ ?_
    rfl
  · refine shrinks_setRefs h ?_
    rfl
  · refine hset _ _ ?_
    rfl
  · refine hset _ _ ?_
    rfl

theorem getRefPtr_frame (h : Heap) (w : Nat) :
    (h.getRefPtr w).2.sptrs = h.sptrs ∧ (h.getRefPtr w).2.alive = h.alive := by
  unfold getRefPtr
  cases h.target w with
  | none => exact ⟨rfl, rfl⟩
  | some c =>
      simp only
      split_ifs <;> exact ⟨rfl, rfl⟩

theorem setPtr_within {h' : Heap} (halive : h'.alive ⊆ h.alive) (hsptrs : h'.sptrs ⊆ h.sptrs)
    (a : Nat) (p : Option Nat) :
    (h'.setPtr a p).alive ⊆ h.alive ∧ (a ∉ h.sptrs → (h'.setPtr a p).undefined = true) := by
  unfold setPtr
  split_ifs with ha
  · exact ⟨halive, fun ha' => absurd (hsptrs ha) ha'⟩
  · exact ⟨halive, fun _ => rfl⟩

theorem assignAttempt_within {h' : Heap} (halive : h'.alive ⊆ h.alive) (hsptrs : h'.sptrs ⊆ h.sptrs)
    (a w x : Nat) (canPromote : Bool) :
    (h'.assignAttempt a w x canPromote).alive ⊆ h.alive ∧
      (a ∉ h.sptrs → (h'.assignAttempt a w x canPromote).undefined = true) := by
  have hshrinks := shrinks_attempt h' x canPromote
  unfold assignAttempt
  generalize h'.attemptIncStrongRef x canPromote = attempt at hshrinks ⊢
  obtain ⟨ok, h₂⟩ := attempt
  have halive₂ := hshrinks.alive.trans halive
  have hsptrs₂ := hshrinks.sptrs.trans hsptrs
  cases ok with
  | false => exact setPtr_within halive₂ hsptrs₂ a none
  | true =>
      obtain ⟨hsptrs₃, halive₃⟩ := getRefPtr_frame h₂ w
      exact setPtr_within ((le_of_eq halive₃).trans halive₂) ((le_of_eq hsptrs₃).trans hsptrs₂) a _

/-- What the release has destroyed stays destroyed. -/
theorem assignWptr_within (h : Heap) (a w : Nat) (canPromote : Bool) :
    (h.assignWptr a w canPromote).alive ⊆ (h.releaseOld a).alive ∧
      (a ∉ (h.releaseOld a).sptrs → (h.assignWptr a w canPromote).undefined = true) := by
  unfold assignWptr
  simp only
  generalize h.releaseOld a = h
  obtain ⟨hsptrs, halive⟩ := getRefPtr_frame h w
  split_ifs
  · generalize h.getRefPtr w = get at hsptrs halive ⊢
    obtain ⟨p, h₁⟩ := get
    cases p with
    | none => exact setPtr_within (le_of_eq halive) (le_of_eq hsptrs) a none
    | some x => exact assignAttempt_within (le_of_eq halive) (le_of_eq hsptrs) a w x canPromote
  · exact ⟨subset_rfl, fun _ => rfl⟩

/-- `a` holds the object of `w` after `a = w`, as after `a = w.promote()`, if and only if the
release destroys neither `a` nor `w` nor the object, and no `CanPromote` that is asked denies it. -/
theorem assignWptr_promotes_iff (hw : h.WellFormed) (ha : a ∈ h.sptrs) (hwp : w ∈ h.wptrs)
    (hx : h.Refers x (.wptr w)) (halive : x ∈ h.alive) :
    Promoted h (h.assignWptr a w canPromote) a w x canPromote ↔
      h.PromoteSafe a w x canPromote := by
  obtain ⟨c, ht, hx⟩ := hx
  refine ⟨fun hp => ?_, promoted_of_safe hw ha hwp ht hx halive⟩
  obtain ⟨hsub, hundefined⟩ := assignWptr_within h a w canPromote
  have hlosta : ¬h.Lost a (.sptr a) := by
    intro hlost
    have hdefined := hp.defined
    rw [hundefined (not_mem_releaseOld hw ha hlost)] at hdefined
    cases hdefined
  have hlostw : ¬h.Lost a (.wptr w) := by
    intro hlost
    have hw' : w ∉ (h.releaseOld a).wptrs := fun hw' =>
      ((mem_wptrs_releaseOld hw ha hlosta).1 hw').2 hlost
    have hdefined := hp.defined
    rw [assignWptr, if_neg hw'] at hdefined
    cases hdefined
  have hdoomed : ¬h.Doomed a x := ((mem_alive_releaseOld hw ha hlosta).1 (hsub hp.alive)).2
  refine ⟨hlosta, hlostw, hdoomed, ?_⟩
  by_contra hveto
  obtain ⟨hno, hveto⟩ := not_or.1 hveto
  obtain ⟨hext, hheld⟩ := not_or.1 hveto
  -- no strong reference is left, so `CanPromote` is asked
  have hi := (Inv.release hw ha hlosta).1
  have hvetoed : Vetoed ((h.releaseOld a).refs x) canPromote := by
    refine ⟨?_, by simpa using hno, ?_⟩
    · rw [hi.core.shrinks.extended]
      simpa using hext
    · have hempty : (h.releaseOld a).holders (some a) x = ∅ := by
        rw [Finset.eq_empty_iff_forall_notMem]
        intro l hl
        exact hheld ⟨l, (mem_holders_releaseOld hw ha hlosta).1 hl⟩
      have hs := hi.core.counted.strong x
      simp only [hempty, Finset.card_empty, List.count_nil] at hs
      omega
  obtain ⟨hfalse, d, hset⟩ := attempt_of_vetoed hvetoed
  have hholds := hp.holds
  rw [assignWptr_attempt hw ha hwp ht hx halive hlosta hlostw hdoomed, assignAttempt] at hholds
  generalize (h.releaseOld a).attemptIncStrongRef x canPromote = attempt at hfalse hset hholds
  obtain ⟨ok, h₂⟩ := attempt
  cases hfalse
  cases hset
  have ha' : a ∈ ((h.releaseOld a).setRefs x d).sptrs := (Inv.release hw ha hlosta).2
  have hnull : (((h.releaseOld a).setRefs x d).setPtr a none).ptr a = some x := hholds
  rw [setPtr_of_mem ha'] at hnull
  simp at hnull

/-- The `sptr` 2, which holds the second node, is assigned the `wptr` to the first one. -/
theorem assignWptr_promotes_other :
    chain.WellFormed ∧ 2 ∈ chain.sptrs ∧ 0 ∈ chain.wptrs ∧ chain.Refers 0 (.wptr 0) ∧
      0 ∈ chain.alive ∧ Promoted chain (chain.assignWptr 2 0 true) 2 0 0 true := by
  have hrefers : chain.Refers 0 (.wptr 0) := ⟨0, rfl, rfl⟩
  refine ⟨chain_wellFormed, by decide, by decide, hrefers, by decide,
    (assignWptr_promotes_iff chain_wellFormed (by decide) (by decide) hrefers (by decide)).2
      ⟨?_, ?_, ?_, Or.inl rfl⟩⟩
  · exact not_lost_chain (by decide)
  · exact not_lost_chain (by decide)
  · rintro ⟨-, -, howned, -⟩
    have hkeeps : chain.Keeps 0 (.sptr 0) := ⟨by decide, rfl, Or.inr ⟨0, rfl⟩⟩
    obtain ⟨y, -, hmem⟩ := howned (.sptr 0) hkeeps (by decide)
    rcases y with _ | y <;> simp [chain] at hmem

/-- The head is assigned the `wptr` to the node it holds alone: the node is destroyed. -/
theorem head_assigned_own_wptr :
    chain.WellFormed ∧ 0 ∈ chain.sptrs ∧ 0 ∈ chain.wptrs ∧ chain.Refers 0 (.wptr 0) ∧
      0 ∈ chain.alive ∧ ¬Promoted chain (chain.assignWptr 0 0 true) 0 0 0 true := by
  refine ⟨chain_wellFormed, by decide, by decide, ⟨0, rfl, rfl⟩, by decide, fun hp => ?_⟩
  have hdead : 0 ∉ (chain.assignWptr 0 0 true).alive := by decide +kernel
  exact hdead hp.alive

end Heap

end CUtils.RefBases
