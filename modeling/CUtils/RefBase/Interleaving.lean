import Mathlib.Algebra.Order.BigOperators.Group.Finset
import CUtils.Lib.Threads
import CUtils.RefBase.Effects
import CUtils.RefBase.Ledger
import CUtils.RefBase.Threads

/-!
# Every interleaving keeps to the ledger

What a thread is doing gives it a `Role` (`Pc.role`) and may make it the holder of a reference on the
counter (`Pc.refs`). Added up over the threads, with the `WeakRefCounter`s as holders of a weak
reference each, this is a `Ledger`; the three atomic counts are its totals (`Agrees`), as long as
they can hold them (`Within`). Each step of a thread is then a `Move` of the ledger.

`Orderly` is what is known of the threads besides: what a thread works with is its own, a local
`curCount` has passed the tests made on it, and a `WeakRefCounter` counts its `wptr`s.
-/

namespace CUtils.RefBases.Threads

open Finset

/-! ## Roles -/

def WeakReturn.refs : WeakReturn → Nat
  | .wrc => 1
  | _ => 0

def CallbackReturn.refs : CallbackReturn → Nat
  | .decStrongRef => 0
  | .decWeakRefCount k => k.refs

def CallbackReturn.role : CallbackReturn → Role
  | .decStrongRef => .destroying
  | .decWeakRefCount _ => .burying

def RefReturn.refs : RefReturn → Nat
  | .destructor k => k.refs
  | .decWeakRefCount k => k.refs
  | .wrc => 1

def RefReturn.role : RefReturn → Option Role
  | .destructor k => some k.role
  | .decWeakRefCount _ => some .closing
  | .wrc => none

/-- What the thread holds in its present step, besides its pointers. -/
def Pc.role : Pc → Option Role
  | .incLoad | .incAdd => some .weak
  | .incSub => some .starting
  | .incFlags | .decLoad | .decSub => some .strong
  | .decFlags | .decCallback => some .dropping
  | .removeCallback k | .destructorFlags k | .destructorWeak k | .destructorStrong k => some k.role
  | .weakLoad _ | .weakSub _ => some .weak
  | .weakFlags _ | .weakStrong _ => some .last
  | .weakCallback _ => some .abandoning
  | .refLoad r | .refSub r => r.role
  | .attemptExchange _ _ | .attemptReload _ | .attemptNormal _ _ | .attemptFirstExchange _ _
  | .attemptFirstReload _ | .attemptExtended _ _ | .attemptAdd _ => some .weak
  | .attemptSub _ => some .starting
  | .attemptEnd _ curCount => if 0 < curCount then some .strong else some .weak
  | .attemptPtr _ => some .strong
  | .idle | .incWeak | .attemptLoad _ | .attemptWeak _ _ | .newRef | .newAdd _ | .newWeak _
  | .copyAdd _ | .copyWeak _ | .dropSub _ => none

/-- References on the counter that the thread itself is to give up, or to give to a new
`WeakRefCounter`. -/
def Pc.refs : Pc → Nat
  | .removeCallback k | .destructorFlags k | .destructorWeak k | .destructorStrong k => k.refs
  | .weakLoad k | .weakSub k | .weakFlags k | .weakStrong k | .weakCallback k => k.refs
  | .refLoad r | .refSub r => r.refs
  | .newAdd _ | .newWeak _ => 1
  | _ => 0

/-- What is known at a step: that the thread may use the object, that the `wptr` is its own, which
tests `curCount` has passed. Some steps are for extended lifetimes only. -/
def Pc.Valid (mayUse : Prop) (wptrs : Nat → Nat) : Pc → Prop
  | .incWeak | .incLoad | .incAdd | .newRef => mayUse
  | .newAdd c => mayUse ∧ c = {}
  | .newWeak c => mayUse ∧ c = { weak := 1 }
  | .attemptLoad w | .attemptWeak w _ | .copyAdd w => 0 < wptrs w
  | .attemptExchange _ curCount => 0 < curCount ∧ curCount ≠ initialPrimaryValue
  | .attemptNormal _ curCount => curCount = initialPrimaryValue
  | .attemptFirstExchange _ curCount => 0 < curCount
  | .attemptExtended _ curCount => curCount ≤ 0
  | .attemptEnd _ curCount => 0 ≤ curCount
  | .refLoad r | .refSub r => r ≠ .destructor .decStrongRef
  | .attemptAdd _ | .destructorWeak _ | .copyWeak _ => False
  | _ => True

namespace Local

def count (l : Local) (r : Role) : Nat :=
  (if l.pc.role = some r then 1 else 0) + (if r = .strong then l.sptrs else 0)

/-- The `wptr`s with this `WeakRefCounter`, up to the subtraction that takes one away. -/
def held (l : Local) (w : Nat) : Nat :=
  l.wptrs w + match l.pc with
    | .dropSub w' => if w' = w then 1 else 0
    | _ => 0

end Local

variable {ι : Type} [Fintype ι] [DecidableEq ι]

namespace State

def count (s : State ι) (r : Role) : Nat :=
  ∑ t, (s.threads t).count r + if r = .weak then s.wrcs.card else 0

/-- References on the counter, the base reference apart. -/
def counterRefs (s : State ι) : Nat := ∑ t, (s.threads t).pc.refs + s.wrcs.card

def held (s : State ι) (w : Nat) : Nat := ∑ t, (s.threads t).held w

/-- Strong references, those of unfinished operations included. -/
def strongRefs (s : State ι) : Nat := s.count .starting + s.count .strong

def weakRefs (s : State ι) : Nat :=
  s.strongRefs + s.count .dropping + s.count .destroying + s.count .weak

/-- There are no more references than the counters can count. -/
structure Within (s : State ι) : Prop where
  strong : s.strongRefs < 2 ^ 28
  weak : s.weakRefs < 2 ^ 31
  refs : s.counterRefs + 1 < 2 ^ 31
  wptrs : ∀ w, s.held w < 2 ^ 31

/-- What is known of a thread at its present step. -/
def Valid (s : State ι) (t : ι) : Prop :=
  (s.threads t).pc.Valid (s.MayUse t) (s.threads t).wptrs

end State

/-- The atomic counts are the totals of the ledger. -/
structure Numbers (s : State ι) (l : Ledger) : Prop where
  strong : s.refs.strong = l.strong + initialPrimaryValue * l.initial
  weak : s.refs.weak = l.weak
  refCount : s.refs.refCount = l.refs + l.base
  extended : s.refs.extended = false
  callback : l.invoked = 0 → s.refs.callback = true
  invoked : s.invoked = l.invoked
  freed : s.freed = l.freed

structure Agrees (s : State ι) (l : Ledger) : Prop where
  count : ∀ r, s.count r = l.count r
  refs : s.counterRefs = l.refs
  numbers : Numbers s l

structure Orderly (s : State ι) : Prop where
  valid : ∀ t, s.Valid t
  held : ∀ w, (s.held w : Int) = if w ∈ s.wrcs then (s.wrc w).weak else 0
  pos : ∀ w ∈ s.wrcs, 0 < (s.wrc w).weak
  fresh : ∀ w ∈ s.wrcs, w < s.next
  cookie : ∀ w, (s.wrc w).cookie = true
  /-- Before the object is shared, nobody but the creator has anything to do with it. -/
  alone : s.shared = false → ∀ u, u ≠ s.creator → s.threads u = {}

/-! ## Sums over the threads -/

section Sums

variable {s : State ι} {t u : ι} {x : Local}

omit [Fintype ι] in
@[simp] theorem setThread_self : (s.setThread t x).threads t = x := Function.update_self ..

omit [Fintype ι] in
theorem setThread_of_ne (hu : u ≠ t) : (s.setThread t x).threads u = s.threads u :=
  Function.update_of_ne hu ..

theorem sum_setThread (f : Local → Nat) (s : State ι) (t : ι) (x : Local) :
    ∑ u, f ((s.setThread t x).threads u) + f (s.threads t) = ∑ u, f (s.threads u) + f x :=
  Threads.sum_update f s.threads t x

theorem count_setThread (s : State ι) (t : ι) (x : Local) (r : Role) :
    (s.setThread t x).count r + (s.threads t).count r = s.count r + x.count r := by
  have hsum := sum_setThread (fun l => l.count r) s t x
  have hwrcs : (s.setThread t x).wrcs = s.wrcs := rfl
  unfold State.count
  rw [hwrcs]
  omega

theorem counterRefs_setThread (s : State ι) (t : ι) (x : Local) :
    (s.setThread t x).counterRefs + (s.threads t).pc.refs = s.counterRefs + x.pc.refs := by
  have hsum := sum_setThread (fun l => l.pc.refs) s t x
  have hwrcs : (s.setThread t x).wrcs = s.wrcs := rfl
  unfold State.counterRefs
  rw [hwrcs]
  omega

theorem held_setThread (s : State ι) (t : ι) (x : Local) (w : Nat) :
    (s.setThread t x).held w + (s.threads t).held w = s.held w + x.held w :=
  sum_setThread (fun l => l.held w) s t x

omit [DecidableEq ι] in
theorem count_wrcs {s₁ : State ι} (hthreads : s₁.threads = s.threads) (r : Role) :
    s₁.count r + (if r = .weak then s.wrcs.card else 0) =
      s.count r + if r = .weak then s₁.wrcs.card else 0 := by
  unfold State.count
  rw [hthreads]
  omega

omit [DecidableEq ι] in
theorem counterRefs_wrcs {s₁ : State ι} (hthreads : s₁.threads = s.threads) :
    s₁.counterRefs + s.wrcs.card = s.counterRefs + s₁.wrcs.card := by
  unfold State.counterRefs
  rw [hthreads]
  omega

omit [DecidableEq ι] in
theorem local_le_count (s : State ι) (t : ι) (r : Role) : (s.threads t).count r ≤ s.count r :=
  (single_le_sum (f := fun t => (s.threads t).count r) (fun _ _ => Nat.zero_le _)
    (mem_univ t)).trans (Nat.le_add_right _ _)

omit [DecidableEq ι] in
theorem local_le_held (s : State ι) (t : ι) (w : Nat) : (s.threads t).held w ≤ s.held w :=
  single_le_sum (f := fun t => (s.threads t).held w) (fun _ _ => Nat.zero_le _) (mem_univ t)

end Sums

/-! ## Steps of one thread -/

section Steps

variable {s s₀ : State ι} {l l' : Ledger} {t : ι} {pc' : Pc}

/-- `s₀` is `s` but for the counters. -/
structure Counters (s s₀ : State ι) : Prop where
  threads : s₀.threads = s.threads
  wrcs : s₀.wrcs = s.wrcs
  wrc : s₀.wrc = s.wrc
  next : s₀.next = s.next
  creator : s₀.creator = s.creator
  shared : s₀.shared = s.shared

omit [Fintype ι] [DecidableEq ι] in
theorem Counters.update {refs : RefCounter} {invoked freed : Nat} :
    Counters s { s with refs := refs, invoked := invoked, freed := freed } :=
  ⟨rfl, rfl, rfl, rfl, rfl, rfl⟩

omit [DecidableEq ι] in
theorem Counters.count (h : Counters s s₀) (r : Role) : s₀.count r = s.count r := by
  unfold State.count
  rw [h.threads, h.wrcs]

omit [DecidableEq ι] in
theorem Counters.counterRefs (h : Counters s s₀) : s₀.counterRefs = s.counterRefs := by
  unfold State.counterRefs
  rw [h.threads, h.wrcs]

omit [DecidableEq ι] in
theorem Agrees.of_counts (hcount : ∀ r, s.count r = l.count r) (hrefs : s.counterRefs = l.refs)
    (hwithin : s.Within)
    (hnumbers : l.strong < 2 ^ 28 → l.weak < 2 ^ 31 → l.refs + 1 < 2 ^ 31 → Numbers s l) :
    Agrees s l := by
  have hstrong : s.strongRefs = l.strong := by
    unfold State.strongRefs Ledger.strong
    rw [hcount, hcount]
  have hweak : s.weakRefs = l.weak := by
    unfold State.weakRefs Ledger.weak
    rw [hstrong, hcount, hcount, hcount]
  refine ⟨hcount, hrefs, hnumbers ?_ ?_ ?_⟩
  · rw [← hstrong]
    exact hwithin.strong
  · rw [← hweak]
    exact hwithin.weak
  · rw [← hrefs]
    exact hwithin.refs

/-- The thread goes to another step: its holder in the ledger changes the role. -/
theorem Agrees.goto (h : Agrees s l) (hs₀ : Counters s s₀)
    (hcount : l'.count = (l.shift (s.threads t).pc.role pc'.role).count)
    (hrefs : l'.refs + (s.threads t).pc.refs = l.refs + pc'.refs)
    (hwithin : (s₀.goto t pc').Within)
    (hnumbers : l'.strong < 2 ^ 28 → l'.weak < 2 ^ 31 → l'.refs + 1 < 2 ^ 31 → Numbers s₀ l') :
    Agrees (s₀.goto t pc') l' := by
  have hcount' : ∀ r, (s₀.goto t pc').count r = l'.count r := by
    intro r
    have hset := count_setThread s₀ t { s₀.threads t with pc := pc' } r
    have hle := local_le_count s t r
    rw [hs₀.threads, hs₀.count, h.count] at hset
    rw [h.count] at hle
    simp only [Local.count] at hset hle
    rw [hcount]
    simp only [State.goto, hs₀.threads, Ledger.shift]
    omega
  have hrefs' : (s₀.goto t pc').counterRefs = l'.refs := by
    have hset := counterRefs_setThread s₀ t { s₀.threads t with pc := pc' }
    rw [hs₀.counterRefs, h.refs] at hset
    simp only [hs₀.threads] at hset
    simp only [State.goto, hs₀.threads]
    omega
  refine .of_counts hcount' hrefs' hwithin fun hstrong hweak hrefs => ?_
  have hn := hnumbers hstrong hweak hrefs
  exact ⟨hn.strong, hn.weak, hn.refCount, hn.extended, hn.callback, hn.invoked, hn.freed⟩

omit [DecidableEq ι] in
theorem Agrees.shift_self (h : Agrees s l) {a : Option Role} (ha : (s.threads t).pc.role = a) :
    (l.shift a a).count = l.count := by
  subst ha
  funext r
  have hle := local_le_count s t r
  rw [h.count, Local.count] at hle
  rw [Ledger.shift]
  simp only
  omega

/-- The thread goes to another step in the same role. -/
theorem Agrees.stay (h : Agrees s l) (hrole : pc'.role = (s.threads t).pc.role)
    (hrefs : pc'.refs = (s.threads t).pc.refs) (hwithin : (s.goto t pc').Within) :
    Agrees (s.goto t pc') l := by
  refine h.goto Counters.update ?_ (by rw [hrefs]) hwithin fun _ _ _ => h.numbers
  rw [hrole]
  exact (h.shift_self rfl).symm

omit [DecidableEq ι] in
theorem Agrees.strong_lt (h : Agrees s l) (hwithin : s.Within) : l.strong < 2 ^ 28 := by
  have hstrong := hwithin.strong
  unfold State.strongRefs at hstrong
  rwa [h.count, h.count] at hstrong

/-! ### What a thread holds is in the ledger -/

omit [DecidableEq ι] in
theorem Agrees.role_pos (h : Agrees s l) {r : Role} (hrole : (s.threads t).pc.role = some r) :
    0 < l.count r := by
  have hle := local_le_count s t r
  rw [h.count, Local.count, if_pos hrole] at hle
  omega

omit [DecidableEq ι] in
theorem Agrees.refs_pos (h : Agrees s l) {n : Nat} (hrefs : (s.threads t).pc.refs = n + 1) :
    0 < l.refs := by
  have hle := single_le_sum (f := fun t => (s.threads t).pc.refs) (fun _ _ => Nat.zero_le _)
    (mem_univ t)
  rw [← h.refs, State.counterRefs]
  omega

omit [DecidableEq ι] in
theorem Agrees.sptr_pos (h : Agrees s l) (hsptrs : 0 < (s.threads t).sptrs) :
    0 < l.count .strong := by
  have hle := local_le_count s t .strong
  rw [h.count, Local.count, if_pos rfl] at hle
  omega

omit [DecidableEq ι] in
theorem Orderly.mem_wrcs (ho : Orderly s) {w : Nat} (hw : 0 < (s.threads t).held w) :
    w ∈ s.wrcs := by
  by_contra hnot
  have hheld := ho.held w
  rw [if_neg hnot] at hheld
  have hle := local_le_held s t w
  omega

omit [DecidableEq ι] in
theorem Agrees.wptr_pos (h : Agrees s l) (ho : Orderly s) {w : Nat}
    (hw : 0 < (s.threads t).wptrs w) : 0 < l.count .weak := by
  have hmem := ho.mem_wrcs (hw.trans_le (Nat.le_add_right _ _))
  have hcard := card_pos.2 ⟨w, hmem⟩
  rw [← h.count, State.count, if_pos rfl]
  omega

omit [DecidableEq ι] in
theorem Agrees.weak_pos (h : Agrees s l) (ho : Orderly s) {w : Nat}
    (hw : 0 < (s.threads t).wptrs w) : 0 < l.weak :=
  (h.wptr_pos ho hw).trans_le (Nat.le_add_left _ _)

/-- As long as the object is not shared, the creator's role is the only one. -/
theorem Agrees.count_alone (h : Agrees s l) (ho : Orderly s) (hshared : s.shared = false)
    {r : Role} (hrole : (s.threads s.creator).pc.role ≠ some r) (hstrong : r ≠ .strong)
    (hweak : r ≠ .weak) : l.count r = 0 := by
  rw [← h.count, State.count, if_neg hweak, Nat.add_zero]
  refine sum_eq_zero fun u _ => ?_
  rw [Local.count, if_neg hstrong, Nat.add_zero]
  refine if_neg fun hu => ?_
  by_cases hc : u = s.creator
  · exact hrole (hc ▸ hu)
  · rw [ho.alone hshared u hc] at hu
    cases hu

/-- A thread that may use the object can take a weak reference. -/
theorem Agrees.mayUse_weak (h : Agrees s l) (hl : l.Sound) (ho : Orderly s) (huse : s.MayUse t)
    (hrole : (s.threads t).pc.role = none) : 0 < l.weak ∨ l.base = 1 ∧ l.leavers = 0 := by
  rcases huse with hsptrs | ⟨rfl, hshared, hinvoked⟩
  · left
    have := h.sptr_pos hsptrs
    unfold Ledger.weak Ledger.strong
    omega
  · right
    have hnone : ∀ r, r ≠ .strong → r ≠ .weak → l.count r = 0 := by
      intro r hstrong hweak
      exact h.count_alone ho hshared (by rw [hrole]; exact nofun) hstrong hweak
    refine ⟨?_, ?_⟩
    · rw [h.numbers.invoked] at hinvoked
      cases hl.phase with
      | gone _ _ hn => omega
      | _ => assumption
    · simp [Ledger.leavers, hnone]

/-- It can take a strong reference: the object has not been destroyed. -/
theorem Agrees.mayUse_strong (h : Agrees s l) (hl : l.Sound) (ho : Orderly s) (huse : s.MayUse t)
    (hrole : (s.threads t).pc.role = some .weak) : l.initial = 1 ∨ 0 < l.strong := by
  rcases huse with hsptrs | ⟨rfl, hshared, hinvoked⟩
  · right
    have := h.sptr_pos hsptrs
    unfold Ledger.strong
    omega
  · have hdropping : l.count .dropping = 0 :=
      h.count_alone ho hshared (by rw [hrole]; exact nofun) nofun nofun
    rw [h.numbers.invoked] at hinvoked
    cases hl.phase with
    | fresh hi | starting hi | unused hi => exact Or.inl hi
    | live _ _ _ _ hp => exact Or.inr (hp.trans_le (Nat.le_add_left _ _))
    | _ => omega

/-! ### What a step does to the counters -/

omit [Fintype ι] [DecidableEq ι] in
theorem Numbers.setWeak {a b : Option Role} {n : Int} (h : Numbers s l)
    (hs : (l.shift a b).strong = l.strong) (hn : n = (l.shift a b).weak)
    (hlt : (l.shift a b).weak < 2 ^ 31) : Numbers (s.setWeak n) (l.shift a b) := by
  refine ⟨?_, ?_, h.refCount, h.extended, h.callback, h.invoked, h.freed⟩
  · rw [hs]
    exact h.strong
  · show int32 n = _
    rw [int32_eq (by omega) (by omega), hn]

omit [Fintype ι] [DecidableEq ι] in
theorem Numbers.setStrong {n : Int} (h : Numbers s l) (hinitial : l'.initial ≤ 1)
    (hn : n = l'.strong + initialPrimaryValue * l'.initial) (hlt : l'.strong < 2 ^ 28)
    (hweak : l'.weak = l.weak) (hrefs : l'.refs = l.refs) (hbase : l'.base = l.base)
    (hinvoked : l'.invoked = l.invoked) (hfreed : l'.freed = l.freed) :
    Numbers (s.setStrong n) l' := by
  refine ⟨?_, by rw [hweak]; exact h.weak, by rw [hrefs, hbase]; exact h.refCount, h.extended,
    by rw [hinvoked]; exact h.callback, h.invoked.trans hinvoked.symm, h.freed.trans hfreed.symm⟩
  show int32 n = _
  unfold initialPrimaryValue at *
  rw [int32_eq (by omega) (by omega), hn]

omit [Fintype ι] [DecidableEq ι] in
theorem Numbers.shift {a b : Option Role} (h : Numbers s l)
    (hs : (l.shift a b).strong = l.strong) (hw : (l.shift a b).weak = l.weak) :
    Numbers s (l.shift a b) :=
  ⟨by rw [hs]; exact h.strong, by rw [hw]; exact h.weak, h.refCount, h.extended, h.callback,
    h.invoked, h.freed⟩

omit [Fintype ι] [DecidableEq ι] in
theorem Numbers.strong_nonneg (h : Numbers s l) : 0 ≤ s.refs.strong := by
  rw [h.strong]
  unfold initialPrimaryValue
  omega

omit [DecidableEq ι] in
theorem Agrees.strong_eq_initial_iff (h : Agrees s l) (hl : l.Sound) (hwithin : s.Within) :
    s.refs.strong = initialPrimaryValue ↔ l.initial = 1 ∧ l.strong = 0 := by
  have hlt := h.strong_lt hwithin
  have hle := hl.initial_le
  rw [h.numbers.strong]
  unfold initialPrimaryValue
  omega

omit [DecidableEq ι] in
theorem Agrees.strong_eq_one_iff (h : Agrees s l) (hl : l.Sound) :
    s.refs.strong = 1 ↔ l.initial = 0 ∧ l.strong = 1 := by
  have hle := hl.initial_le
  rw [h.numbers.strong]
  unfold initialPrimaryValue
  omega

/-- The step is a move of the ledger. -/
def Follows (l : Ledger) (s' : State ι) : Prop := ∃ l', Ledger.Move l l' ∧ Agrees s' l'

theorem Agrees.follows_stay {s' : State ι} (h : Agrees s l) (hgo : s' = s.goto t pc')
    (hwithin : s'.Within) (hrole : pc'.role = (s.threads t).pc.role)
    (hrefs : pc'.refs = (s.threads t).pc.refs) : Follows l s' := by
  subst hgo
  exact ⟨l, .stay, h.stay hrole hrefs hwithin⟩

theorem Agrees.follows {s' : State ι} (h : Agrees s l) (hmove : Ledger.Move l l')
    (hgo : s' = s₀.goto t pc') (hwithin : s'.Within) (hs₀ : Counters s s₀)
    (hcount : l'.count = (l.shift (s.threads t).pc.role pc'.role).count)
    (hrefs : l'.refs + (s.threads t).pc.refs = l.refs + pc'.refs)
    (hnumbers : l'.strong < 2 ^ 28 → l'.weak < 2 ^ 31 → l'.refs + 1 < 2 ^ 31 → Numbers s₀ l') :
    Follows l s' := by
  subst hgo
  exact ⟨l', hmove, h.goto hs₀ hcount hrefs hwithin hnumbers⟩

end Steps

end CUtils.RefBases.Threads
