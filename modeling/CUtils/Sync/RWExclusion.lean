import CUtils.Sync.RWLock

/-!
# Exclusion

A thread has won the write lock from its compare-exchange on to its storing of zero (`Local.won`),
and its id is published for a part of that time (`Local.published`). The invariant says where the
count stands: it is the number of counted read locks, less one if a thread has won, and then there
are none. That the tests of `writeThreadID_` tell a thread about its own locks needs what each step
knows about them (`Local.Valid`).
-/

namespace CUtils.RWLocks

open Finset Threads StateRun

/-- The thread has won the write lock and not released it. -/
def Local.won (l : Local) : Nat :=
  match l.pc with
  | .writeSub | .writeId | .unwriteCheck | .unwriteLoad | .unwriteId | .unwriteStore => 1
  | _ => if 0 < l.writes then 1 else 0

/-- The id of the thread is in `writeThreadID_`. -/
def Local.published (l : Local) : Bool :=
  match l.pc with
  | .unwriteCheck | .unwriteLoad | .unwriteId => true
  | _ => 0 < l.writes

/-- The step comes after a test that the thread does not have the write lock, or it is one of
`UnLockWrite`. -/
def Pc.unlocked : Pc → Bool
  | .idle | .readCheck | .unreadCheck | .writeCheck => false
  | _ => true

/-- The local variable `count`. -/
def Pc.count : Pc → Option Int
  | .readWaiting count | .readExchange count => some count
  | _ => none

structure Local.Valid (l : Local) : Prop where
  inner : 0 < l.inner → 0 < l.writes
  unlocked : l.pc.unlocked = true → l.writes = 0
  check : l.pc = .unreadCheck → 0 < l.outer + l.inner
  sub : l.pc = .unreadSub → 0 < l.outer
  count : ∀ count, l.pc.count = some count → 0 ≤ count

variable {ι : Type} [Fintype ι] {s s' : State ι} {t : ι} {l : Local}

structure Inv (s : State ι) : Prop where
  count : s.lockCount + ∑ u, (s.threads u).won = ∑ u, (s.threads u).outer
  one : ∑ u, (s.threads u).won ≤ 1
  excludes : ∑ u, (s.threads u).won = 1 → ∑ u, (s.threads u).outer = 0
  room : ∑ u, (s.threads u).outer < 2 ^ 31
  id : ∀ u, s.writeThreadID = some u ↔ (s.threads u).published = true
  valid : ∀ u, (s.threads u).Valid

/-! ## What follows for one thread -/

theorem Local.won_of_published (h : l.published = true) : l.won = 1 := by
  unfold Local.published at h
  unfold Local.won
  cases hpc : l.pc <;> simp only [hpc, decide_eq_true_eq] at h ⊢ <;> exact if_pos h

theorem Inv.alone [DecidableEq ι] (h : Inv s) (ht : (s.threads t).won = 1) {u : ι} (hne : u ≠ t) :
    (s.threads u).won = 0 := by
  have hone := h.one
  have hpair : (s.threads u).won + (s.threads t).won ≤ ∑ v, (s.threads v).won := by
    rw [← add_sum_erase univ _ (mem_univ u)]
    refine Nat.add_le_add_left ?_ _
    exact single_le_sum (f := fun v => (s.threads v).won) (fun _ _ => Nat.zero_le _)
      (mem_erase.2 ⟨hne.symm, mem_univ t⟩)
  omega

theorem Inv.won_sum (h : Inv s) (ht : (s.threads t).won = 1) :
    ∑ u, (s.threads u).won = 1 ∧ s.lockCount = -1 ∧ ∀ u, (s.threads u).outer = 0 := by
  have hle := le_sum Local.won s.threads t
  have hone := h.one
  have hcount := h.count
  have hnone := h.excludes (by omega)
  refine ⟨by omega, by omega, fun u => ?_⟩
  have := le_sum Local.outer s.threads u
  omega

/-- With the count not negative nobody has won. -/
theorem Inv.won_none (h : Inv s) (hcount : 0 ≤ s.lockCount) :
    ∑ u, (s.threads u).won = 0 ∧ (∑ u, (s.threads u).outer : Nat) = s.lockCount := by
  have hone := h.one
  have heq := h.count
  have hnone := h.excludes
  omega

/-- A call tests whether the thread has the write lock. -/
theorem Inv.test (h : Inv s) (hpc : (s.threads t).published = decide (0 < (s.threads t).writes)) :
    s.writeThreadID = some t ↔ 0 < (s.threads t).writes := by
  rw [h.id t, hpc, decide_eq_true_eq]

theorem Inv.count_nonneg (h : Inv s) (hcount : s.lockCount ≠ lockStatusWrite) : 0 ≤ s.lockCount := by
  unfold lockStatusWrite at hcount
  have hone := h.one
  have heq := h.count
  omega

/-! ## One thread goes on -/

variable [DecidableEq ι]

theorem valid_update (h : Inv s) (hthreads : s'.threads = Function.update s.threads t l)
    (hl : l.Valid) (u : ι) : (s'.threads u).Valid := by
  rw [hthreads]
  by_cases hut : u = t
  · rw [hut, Function.update_self]
    exact hl
  · rw [Function.update_of_ne hut]
    exact h.valid u

/-- The thread's locks are as before. -/
theorem Inv.quiet (h : Inv s) (hthreads : s'.threads = Function.update s.threads t l)
    (hcount : s'.lockCount = s.lockCount) (hid : s'.writeThreadID = s.writeThreadID)
    (houter : l.outer = (s.threads t).outer) (hwon : l.won = (s.threads t).won)
    (hpub : l.published = (s.threads t).published) (hl : l.Valid) : Inv s' := by
  have hO := sum_update Local.outer s.threads t l
  have hW := sum_update Local.won s.threads t l
  rw [houter, Nat.add_right_cancel_iff, ← hthreads] at hO
  rw [hwon, Nat.add_right_cancel_iff, ← hthreads] at hW
  refine ⟨?_, ?_, ?_, ?_, fun u => ?_, valid_update h hthreads hl⟩
  · rw [hcount, hO, hW]
    exact h.count
  · rw [hW]
    exact h.one
  · rw [hO, hW]
    exact h.excludes
  · rw [hO]
    exact h.room
  · rw [hid, hthreads]
    by_cases hut : u = t
    · rw [hut, Function.update_self, hpub]
      exact h.id t
    · rw [Function.update_of_ne hut]
      exact h.id u

/-- The counted read locks change, while nobody has won. -/
theorem Inv.counted (h : Inv s) (hthreads : s'.threads = Function.update s.threads t l)
    (hnone : ∑ u, (s.threads u).won = 0)
    (hcount : s'.lockCount + (s.threads t).outer = s.lockCount + l.outer)
    (hroom : s'.lockCount < 2 ^ 31) (hid : s'.writeThreadID = s.writeThreadID)
    (hwon : l.won = 0) (hpub : l.published = false) (hl : l.Valid) : Inv s' := by
  have hO := sum_update Local.outer s.threads t l
  have hW := sum_update Local.won s.threads t l
  have heq := h.count
  have ht := le_sum Local.won s.threads t
  rw [← hthreads] at hO hW
  refine ⟨by omega, by omega, fun hone => by omega, by omega, fun u => ?_, valid_update h hthreads hl⟩
  rw [hid, hthreads]
  by_cases hut : u = t
  · have hbefore : (s.threads t).published = false := by
      cases hp : (s.threads t).published with
      | false => rfl
      | true =>
          have := Local.won_of_published hp
          omega
    rw [hut, Function.update_self, hpub, h.id t, hbefore]
  · rw [Function.update_of_ne hut]
    exact h.id u

/-- The thread wins. -/
theorem Inv.win (h : Inv s) (hthreads : s'.threads = Function.update s.threads t l)
    (hfree : s.lockCount = 0) (hcount : s'.lockCount = -1)
    (hid : s'.writeThreadID = s.writeThreadID) (houter : l.outer = (s.threads t).outer)
    (hwon : l.won = 1) (hpub : l.published = false) (hl : l.Valid) : Inv s' := by
  obtain ⟨hnone, hzero⟩ := h.won_none hfree.ge
  have hO := sum_update Local.outer s.threads t l
  have hW := sum_update Local.won s.threads t l
  have ht := le_sum Local.won s.threads t
  rw [← hthreads] at hO hW
  refine ⟨by omega, by omega, fun _ => by omega, by omega, fun u => ?_, valid_update h hthreads hl⟩
  have hbefore : ∀ v, s.writeThreadID ≠ some v := by
    intro v hv
    have hone := Local.won_of_published ((h.id v).1 hv)
    have := le_sum Local.won s.threads v
    omega
  rw [hid, hthreads]
  by_cases hut : u = t
  · rw [hut, Function.update_self, hpub]
    exact iff_of_false (hbefore t) nofun
  · rw [Function.update_of_ne hut]
    exact h.id u

/-- The thread that has won publishes its id, or takes it back. -/
theorem Inv.publish (h : Inv s) (hthreads : s'.threads = Function.update s.threads t l)
    (hcount : s'.lockCount = s.lockCount) (houter : l.outer = (s.threads t).outer)
    (ht : (s.threads t).won = 1) (hwon : l.won = 1)
    (hid : s'.writeThreadID = if l.published then some t else none) (hl : l.Valid) : Inv s' := by
  have hO := sum_update Local.outer s.threads t l
  have hW := sum_update Local.won s.threads t l
  rw [houter, Nat.add_right_cancel_iff, ← hthreads] at hO
  rw [hwon, ht, Nat.add_right_cancel_iff, ← hthreads] at hW
  refine ⟨?_, ?_, ?_, ?_, fun u => ?_, valid_update h hthreads hl⟩
  · rw [hcount, hO, hW]
    exact h.count
  · rw [hW]
    exact h.one
  · rw [hO, hW]
    exact h.excludes
  · rw [hO]
    exact h.room
  · rw [hid, hthreads]
    by_cases hut : u = t
    · rw [hut, Function.update_self]
      cases l.published <;> simp
    · have hnot : (s.threads u).published = false := by
        cases hp : (s.threads u).published with
        | false => rfl
        | true =>
            have hone := Local.won_of_published hp
            rw [h.alone ht hut] at hone
            cases hone
      rw [Function.update_of_ne hut, hnot]
      refine iff_of_false ?_ nofun
      cases l.published with
      | true => exact fun heq => hut (Option.some.inj heq).symm
      | false => exact nofun

/-- The thread that has won releases the lock. -/
theorem Inv.release (h : Inv s) (hthreads : s'.threads = Function.update s.threads t l)
    (hcount : s'.lockCount = 0) (houter : l.outer = (s.threads t).outer)
    (ht : (s.threads t).won = 1) (hwon : l.won = 0) (hid : s'.writeThreadID = s.writeThreadID)
    (hbefore : (s.threads t).published = false) (hpub : l.published = false) (hl : l.Valid) :
    Inv s' := by
  obtain ⟨hsum, hcount', hzero⟩ := h.won_sum ht
  have hO := sum_update Local.outer s.threads t l
  have hW := sum_update Local.won s.threads t l
  have hnone := h.excludes hsum
  rw [← hthreads] at hO hW
  refine ⟨by omega, by omega, fun _ => by omega, by omega, fun u => ?_, valid_update h hthreads hl⟩
  rw [hid, hthreads]
  by_cases hut : u = t
  · rw [hut, Function.update_self, hpub, h.id t, hbefore]
  · rw [Function.update_of_ne hut]
    exact h.id u

/-! ## The steps -/

/-- The thread goes on to a step of the same call. -/
theorem Inv.goto (h : Inv s) {pc : Pc} (hwon : Local.won { s.threads t with pc } = (s.threads t).won)
    (hpub : Local.published { s.threads t with pc } = (s.threads t).published)
    (hunlocked : pc.unlocked = true → (s.threads t).writes = 0)
    (hcheck : pc = .unreadCheck → 0 < (s.threads t).outer + (s.threads t).inner)
    (hsub : pc = .unreadSub → 0 < (s.threads t).outer)
    (hcount : ∀ count, pc.count = some count → 0 ≤ count) : Inv (s.goto t pc) :=
  h.quiet rfl rfl rfl rfl hwon hpub ⟨(h.valid t).inner, hunlocked, hcheck, hsub, hcount⟩

theorem Inv.readCheck (h : Inv s) (hpc : (s.threads t).pc = .readCheck) (spurious : Bool) :
    Inv (s.go t spurious) := by
  have htest := h.test (t := t) (by rw [Local.published, hpc])
  rw [State.go, hpc]
  show Inv (if _ then _ else _)
  split
  · rename_i hself
    refine h.quiet rfl rfl rfl rfl ?_ ?_ ⟨fun _ => htest.1 hself, nofun, nofun, nofun, nofun⟩
    · simp [Local.won, hpc]
    · simp [Local.published, hpc]
  · rename_i hother
    have hwrites : (s.threads t).writes = 0 := Nat.eq_zero_of_not_pos fun hpos => hother (htest.2 hpos)
    refine h.goto ?_ ?_ (fun _ => hwrites) nofun nofun nofun
    · simp [Local.won, hpc]
    · simp [Local.published, hpc]

/-- The spinning of `LockRead`. -/
theorem Inv.readLoad (h : Inv s) (hpc : (s.threads t).pc = .readLoad) (spurious : Bool) :
    Inv (s.go t spurious) := by
  have hwrites := (h.valid t).unlocked (by rw [hpc]; rfl)
  rw [State.go, hpc]
  show Inv (if _ then _ else _)
  split
  · exact h
  · rename_i hcount
    have hpos := h.count_nonneg hcount
    cases s.writeFirst with
    | true =>
        refine h.goto ?_ ?_ (fun _ => hwrites) nofun nofun fun _ hc => Option.some.inj hc ▸ hpos
        · simp [Local.won, hpc]
        · simp [Local.published, hpc]
    | false =>
        refine h.goto ?_ ?_ (fun _ => hwrites) nofun nofun fun _ hc => Option.some.inj hc ▸ hpos
        · simp [Local.won, hpc]
        · simp [Local.published, hpc]

theorem Inv.readWaiting (h : Inv s) {count : Int} (hpc : (s.threads t).pc = .readWaiting count)
    (spurious : Bool) : Inv (s.go t spurious) := by
  have hwrites := (h.valid t).unlocked (by rw [hpc]; rfl)
  have hpos := (h.valid t).count count (by rw [hpc]; rfl)
  rw [State.go, hpc]
  show Inv (s.goto t (if _ then _ else _))
  split
  · refine h.goto ?_ ?_ (fun _ => hwrites) nofun nofun nofun
    · simp [Local.won, hpc]
    · simp [Local.published, hpc]
  · refine h.goto ?_ ?_ (fun _ => hwrites) nofun nofun fun _ hc => Option.some.inj hc ▸ hpos
    · simp [Local.won, hpc]
    · simp [Local.published, hpc]

theorem Inv.readExchange (h : Inv s) {count : Int} (hpc : (s.threads t).pc = .readExchange count)
    (spurious : Bool) (hroom : s.lockCount = count ∧ spurious = false → s.lockCount + 1 < 2 ^ 31) :
    Inv (s.go t spurious) := by
  have hwrites := (h.valid t).unlocked (by rw [hpc]; rfl)
  have hpos := (h.valid t).count count (by rw [hpc]; rfl)
  rw [State.go, hpc]
  show Inv (if _ then _ else _)
  split
  · rename_i hsuccess
    have hfits := hroom hsuccess
    have hint : int (count + 1) = s.lockCount + 1 := by
      rw [hsuccess.1, int_eq (by omega) (by omega)]
    refine h.counted rfl (h.won_none (by omega)).1 ?_ ?_ rfl ?_ ?_
      ⟨(h.valid t).inner, nofun, nofun, nofun, nofun⟩
    · show int (count + 1) + _ = s.lockCount + ((s.threads t).outer + 1 : Nat)
      rw [hint]
      push_cast
      omega
    · show int (count + 1) < 2 ^ 31
      rw [hint]
      exact hfits
    · simp [Local.won, hwrites]
    · simp [Local.published, hwrites]
  · refine h.goto ?_ ?_ (fun _ => hwrites) nofun nofun nofun
    · simp [Local.won, hpc]
    · simp [Local.published, hpc]

/-- Inside the write lock nothing is counted; outside there is a counted lock to give back. -/
theorem Inv.unreadCheck (h : Inv s) (hpc : (s.threads t).pc = .unreadCheck) (spurious : Bool) :
    Inv (s.go t spurious) := by
  have htest := h.test (t := t) (by rw [Local.published, hpc])
  have hlocks := (h.valid t).check hpc
  rw [State.go, hpc]
  show Inv (if _ then _ else _)
  split
  · rename_i hother
    have hwrites : (s.threads t).writes = 0 := Nat.eq_zero_of_not_pos fun hpos => hother (htest.2 hpos)
    have hinner : ¬ 0 < (s.threads t).inner := fun hpos => by
      have := (h.valid t).inner hpos
      omega
    refine h.goto ?_ ?_ (fun _ => hwrites) nofun (fun _ => by omega) nofun
    · simp [Local.won, hpc]
    · simp [Local.published, hpc]
  · rename_i hself
    have hwrites := htest.1 (not_not.1 hself)
    have hwon : (s.threads t).won = 1 := by simp [Local.won, hpc, hwrites]
    have hzero := (h.won_sum hwon).2.2 t
    unfold Local.unreadInner
    rw [if_pos (by omega)]
    refine h.quiet rfl rfl rfl rfl ?_ ?_ ⟨fun _ => hwrites, nofun, nofun, nofun, nofun⟩
    · simp [Local.won, hpc]
    · simp [Local.published, hpc]

theorem Inv.unreadSub (h : Inv s) (hpc : (s.threads t).pc = .unreadSub) (spurious : Bool) :
    Inv (s.go t spurious) := by
  have hwrites := (h.valid t).unlocked (by rw [hpc]; rfl)
  have hpos := (h.valid t).sub hpc
  have hle := le_sum Local.outer s.threads t
  have hone := h.one
  have heq := h.count
  have hexcludes := h.excludes
  have hroom := h.room
  have hint : int (s.lockCount - 1) = s.lockCount - 1 := int_eq (by omega) (by omega)
  rw [State.go, hpc]
  show Inv (State.setThread _ t (Local.unread (s.threads t)))
  unfold Local.unread
  rw [if_pos hpos]
  refine h.counted rfl (by omega) ?_ ?_ rfl ?_ ?_ ⟨(h.valid t).inner, nofun, nofun, nofun, nofun⟩
  · show int (s.lockCount - 1) + _ = s.lockCount + ((s.threads t).outer - 1 : Nat)
    rw [hint]
    omega
  · show int (s.lockCount - 1) < 2 ^ 31
    rw [hint]
    omega
  · simp [Local.won, hwrites]
  · simp [Local.published, hwrites]

theorem Inv.writeCheck (h : Inv s) (hpc : (s.threads t).pc = .writeCheck) (spurious : Bool) :
    Inv (s.go t spurious) := by
  have htest := h.test (t := t) (by rw [Local.published, hpc])
  rw [State.go, hpc]
  show Inv (if _ then _ else _)
  split
  · rename_i hother
    have hwrites : (s.threads t).writes = 0 := Nat.eq_zero_of_not_pos fun hpos => hother (htest.2 hpos)
    refine h.goto ?_ ?_ (fun _ => hwrites) nofun nofun nofun
    · simp [Local.won, hpc]
    · simp [Local.published, hpc]
  · rename_i hself
    have hwrites := htest.1 (not_not.1 hself)
    refine h.quiet rfl rfl rfl rfl ?_ ?_ ⟨fun _ => Nat.succ_pos _, nofun, nofun, nofun, nofun⟩
    · simp [Local.won, hpc, hwrites]
    · simp [Local.published, hpc, hwrites]

theorem Inv.writeExchange (h : Inv s) (hpc : (s.threads t).pc = .writeExchange) (spurious : Bool) :
    Inv (s.go t spurious) := by
  have hwrites := (h.valid t).unlocked (by rw [hpc]; rfl)
  rw [State.go, hpc]
  show Inv (if _ then _ else _)
  split
  · rename_i hsuccess
    refine h.win rfl hsuccess.1 rfl rfl rfl rfl ?_
      ⟨(h.valid t).inner, fun _ => hwrites, nofun, nofun, nofun⟩
    simp [Local.published, hwrites]
  · exact h

theorem Inv.writeId (h : Inv s) (hpc : (s.threads t).pc = .writeId) (spurious : Bool) :
    Inv (s.go t spurious) := by
  rw [State.go, hpc]
  refine h.publish rfl rfl rfl ?_ ?_ ?_ ⟨fun _ => Nat.succ_pos _, nofun, nofun, nofun, nofun⟩
  · simp [Local.won, hpc]
  · simp [Local.won]
  · simp [Local.published, State.setThread]

/-- `UnLockWrite` does not return early: the thread has the lock. -/
theorem Inv.unwriteCheck (h : Inv s) (hpc : (s.threads t).pc = .unwriteCheck) (spurious : Bool) :
    Inv (s.go t spurious) := by
  have hwrites := (h.valid t).unlocked (by rw [hpc]; rfl)
  have hself : s.writeThreadID = some t := (h.id t).2 (by rw [Local.published, hpc])
  rw [State.go, hpc]
  show Inv (s.goto t (if _ then _ else _))
  rw [if_neg (not_not.2 hself)]
  refine h.goto ?_ ?_ (fun _ => hwrites) nofun nofun nofun
  · simp [Local.won, hpc]
  · simp [Local.published, hpc]

theorem Inv.unwriteLoad (h : Inv s) (hpc : (s.threads t).pc = .unwriteLoad) (spurious : Bool) :
    Inv (s.go t spurious) := by
  have hwrites := (h.valid t).unlocked (by rw [hpc]; rfl)
  have hwon : (s.threads t).won = 1 := by rw [Local.won, hpc]
  have hheld : s.lockCount = lockStatusWrite := (h.won_sum hwon).2.1
  rw [State.go, hpc]
  show Inv (s.goto t (if _ then _ else _))
  rw [if_neg (not_not.2 hheld)]
  refine h.goto ?_ ?_ (fun _ => hwrites) nofun nofun nofun
  · simp [Local.won, hpc]
  · simp [Local.published, hpc]

theorem Inv.unwriteId (h : Inv s) (hpc : (s.threads t).pc = .unwriteId) (spurious : Bool) :
    Inv (s.go t spurious) := by
  have hwrites := (h.valid t).unlocked (by rw [hpc]; rfl)
  rw [State.go, hpc]
  refine h.publish rfl rfl rfl ?_ rfl ?_ ⟨(h.valid t).inner, fun _ => hwrites, nofun, nofun, nofun⟩
  · simp [Local.won, hpc]
  · simp [Local.published, State.goto, State.setThread, hwrites]

theorem Inv.unwriteStore (h : Inv s) (hpc : (s.threads t).pc = .unwriteStore) (spurious : Bool) :
    Inv (s.go t spurious) := by
  have hwrites := (h.valid t).unlocked (by rw [hpc]; rfl)
  rw [State.go, hpc]
  refine h.release rfl rfl rfl ?_ ?_ rfl ?_ ?_ ⟨(h.valid t).inner, nofun, nofun, nofun, nofun⟩
  · simp [Local.won, hpc]
  · simp [Local.won, hwrites]
  · simp [Local.published, hpc, hwrites]
  · simp [Local.published, hwrites]

/-- The count of read locks stays an `int`: a compare-exchange that takes one finds room for it. -/
def Room (s : State ι) : ι × Act → Prop
  | (t, .go spurious) =>
      (s.threads t).pc = .readExchange s.lockCount ∧ spurious = false → s.lockCount + 1 < 2 ^ 31
  | _ => True

theorem Inv.go (h : Inv s) {spurious : Bool} (hroom : Room s (t, .go spurious)) :
    Inv (s.go t spurious) := by
  cases hpc : (s.threads t).pc with
  | idle =>
      rw [State.go, hpc]
      exact h
  | readCheck => exact h.readCheck hpc spurious
  | readLoad => exact h.readLoad hpc spurious
  | readWaiting count => exact h.readWaiting hpc spurious
  | readExchange count =>
      refine h.readExchange hpc spurious fun hsuccess => hroom ⟨?_, hsuccess.2⟩
      rw [hpc, hsuccess.1]
  | unreadCheck => exact h.unreadCheck hpc spurious
  | unreadSub => exact h.unreadSub hpc spurious
  | writeCheck => exact h.writeCheck hpc spurious
  | writeAdd =>
      have hwrites := (h.valid t).unlocked (by rw [hpc]; rfl)
      rw [State.go, hpc]
      refine h.quiet rfl rfl rfl rfl ?_ ?_ ⟨(h.valid t).inner, fun _ => hwrites, nofun, nofun, nofun⟩
      · simp [Local.won, hpc]
      · simp [Local.published, hpc]
  | writeExchange => exact h.writeExchange hpc spurious
  | writeSub =>
      have hwrites := (h.valid t).unlocked (by rw [hpc]; rfl)
      rw [State.go, hpc]
      refine h.quiet rfl rfl rfl rfl ?_ ?_ ⟨(h.valid t).inner, fun _ => hwrites, nofun, nofun, nofun⟩
      · simp [Local.won, hpc]
      · simp [Local.published, hpc]
  | writeId => exact h.writeId hpc spurious
  | unwriteCheck => exact h.unwriteCheck hpc spurious
  | unwriteLoad => exact h.unwriteLoad hpc spurious
  | unwriteId => exact h.unwriteId hpc spurious
  | unwriteStore => exact h.unwriteStore hpc spurious

/-- `UnLockWrite` gives back the last `LockWrite` of the thread, and after the read locks taken
inside. -/
def OutermostLast (s : State ι) : ι × Act → Prop
  | (t, .unLockWrite) => (s.threads t).writes ≤ 1 ∧ (s.threads t).inner = 0
  | _ => True

theorem Inv.start (h : Inv s) (hpc : (s.threads t).pc = .idle) (a : Act)
    (ha : OutermostLast s (t, a)) : Inv (s.start t a) := by
  cases a with
  | lockRead =>
      refine h.goto ?_ ?_ nofun nofun nofun nofun
      · simp [Local.won, hpc]
      · simp [Local.published, hpc]
  | unLockRead =>
      show Inv (if _ then _ else _)
      split
      · rename_i hlocks
        refine h.goto ?_ ?_ nofun (fun _ => hlocks) nofun nofun
        · simp [Local.won, hpc]
        · simp [Local.published, hpc]
      · exact h
  | lockWrite =>
      refine h.goto ?_ ?_ nofun nofun nofun nofun
      · simp [Local.won, hpc]
      · simp [Local.published, hpc]
  | unLockWrite =>
      show Inv (if _ then _ else _)
      split
      · rename_i hpos
        obtain ⟨hone, hinner⟩ := ha
        have hzero : (s.threads t).writes - 1 = 0 := by omega
        refine h.quiet rfl rfl rfl rfl ?_ ?_ ⟨fun hpos' => ?_, fun _ => hzero, nofun, nofun, nofun⟩
        · simp [Local.won, hpc, hpos]
        · simp [Local.published, hpc, hpos]
        · exact absurd hpos' (by simp [hinner])
      · exact h
  | go spurious => exact h

theorem Inv.step (h : Inv s) (a : ι × Act) (hroom : Room s a) (ha : OutermostLast s a) :
    Inv (s.step a) := by
  obtain ⟨t, a⟩ := a
  have hstart : Inv (if (s.threads t).pc = .idle then s.start t a else s) := by
    split
    · rename_i hpc
      exact h.start hpc a ha
    · exact h
  cases a with
  | go spurious => exact h.go hroom
  | _ => exact hstart

omit [DecidableEq ι] in
theorem Inv.new (writeFirst : Bool) : Inv (State.new writeFirst : State ι) where
  count := by
    show (0 : Int) + ((∑ _u : ι, 0 : Nat) : Int) = ((∑ _u : ι, 0 : Nat) : Int)
    simp
  one := by
    show ∑ _u : ι, 0 ≤ 1
    simp
  excludes _ := by
    show ∑ _u : ι, 0 = 0
    simp
  room := by
    show ∑ _u : ι, 0 < 2 ^ 31
    simp
  id _ := iff_of_false nofun nofun
  valid _ := ⟨fun h => absurd h (Nat.lt_irrefl 0), nofun, nofun, nofun, nofun⟩

/-! ## Runs -/

omit [Fintype ι] [DecidableEq ι] in
theorem Local.won_of_writes (h : 0 < l.writes) : l.won = 1 := by
  unfold Local.won
  split
  all_goals first | rfl | exact if_pos h

/-- While a thread has write locks outstanding, no other has any lock or is about to have one. -/
theorem Inv.exclusive (h : Inv s) (ht : 0 < (s.threads t).writes) {u : ι} (hne : u ≠ t) :
    (s.threads u).outer = 0 ∧ (s.threads u).inner = 0 ∧ (s.threads u).writes = 0 ∧
      (s.threads u).won = 0 := by
  have hwon := Local.won_of_writes ht
  have halone := h.alone hwon hne
  have hwrites : (s.threads u).writes = 0 := by
    refine Nat.eq_zero_of_not_pos fun hpos => ?_
    have := Local.won_of_writes hpos
    omega
  refine ⟨(h.won_sum hwon).2.2 u, ?_, hwrites, halone⟩
  refine Nat.eq_zero_of_not_pos fun hpos => ?_
  have := (h.valid u).inner hpos
  omega

/-- How the lock is meant to be used: one `LockWrite` at a time, and what is taken inside is given
back inside. -/
def Polite (s : State ι) : ι × Act → Prop
  | (t, .lockWrite) => (s.threads t).writes = 0
  | (t, .unLockWrite) => (s.threads t).writes ≤ 1 ∧ (s.threads t).inner = 0
  | _ => True

omit [Fintype ι] [DecidableEq ι] in
theorem Polite.outermostLast {a : ι × Act} (h : Polite s a) : OutermostLast s a := by
  obtain ⟨t, a⟩ := a
  cases a with
  | unLockWrite => exact h
  | _ => trivial

/-- Mutual exclusion, and what the fields of the lock say about it. -/
structure Exclusion (s : State ι) : Prop where
  exclusive : ∀ t, 0 < (s.threads t).writes → ∀ u, u ≠ t →
    (s.threads u).outer = 0 ∧ (s.threads u).inner = 0 ∧ (s.threads u).writes = 0
  won : ∀ t, (s.threads t).won = 1 →
    s.lockCount = lockStatusWrite ∧ ∀ u, u ≠ t → (s.threads u).won = 0
  counted : (∀ t, (s.threads t).won = 0) → s.lockCount = ∑ u, (s.threads u).outer
  id : ∀ t, s.writeThreadID = some t → (s.threads t).won = 1

/-- **Mutual exclusion** in every state of every run that leaves the count room. -/
theorem mutual_exclusion (writeFirst : Bool) (as : List (ι × Act))
    (has : Along (fun s a => Polite s a ∧ Room s a) State.step (State.new writeFirst) as) :
    Exclusion ((State.new writeFirst).run as) := by
  have hinv : Inv ((State.new writeFirst).run as) :=
    has.invariant (I := Inv) (fun s a ha h => h.step a ha.2 ha.1.outermostLast) (Inv.new writeFirst)
  refine ⟨fun t ht u hne => ?_, fun t ht => ?_, fun hnone => ?_, fun t ht => ?_⟩
  · obtain ⟨houter, hinner, hwrites, -⟩ := hinv.exclusive ht hne
    exact ⟨houter, hinner, hwrites⟩
  · exact ⟨(hinv.won_sum ht).2.1, fun u hne => hinv.alone ht hne⟩
  · have hzero : ∑ u, (((State.new writeFirst).run as).threads u).won = 0 :=
      Finset.sum_eq_zero fun u _ => hnone u
    have hcount := hinv.count
    rw [hzero] at hcount
    simpa using hcount
  · exact Local.won_of_published ((hinv.id t).1 ht)

/-- The steps of a thread, `n` in a row. -/
def goes {κ : Type} (t : κ) (n : Nat) : List (κ × Act) := List.replicate n (t, .go false)

/-- A writer that reads inside its lock, while a reader waits. -/
def writerAndReader : List (Bool × Act) :=
  (true, .lockWrite) :: goes true 5 ++ (false, .lockRead) :: goes false 2 ++
    (true, .lockRead) :: goes true 1 ++ (true, .unLockRead) :: goes true 1 ++
    (true, .unLockWrite) :: goes true 4 ++ goes false 3

instance {κ : Type} (s : State κ) : DecidablePred (Polite s)
  | (_, .lockRead) => inferInstanceAs (Decidable True)
  | (_, .unLockRead) => inferInstanceAs (Decidable True)
  | (t, .lockWrite) => inferInstanceAs (Decidable ((s.threads t).writes = 0))
  | (t, .unLockWrite) =>
      inferInstanceAs (Decidable ((s.threads t).writes ≤ 1 ∧ (s.threads t).inner = 0))
  | (_, .go _) => inferInstanceAs (Decidable True)

omit [Fintype ι] [DecidableEq ι] in
theorem Room.of_lt {a : ι × Act} (h : s.lockCount + 1 < 2 ^ 31) : Room s a := by
  obtain ⟨t, a⟩ := a
  cases a with
  | go spurious => exact fun _ => h
  | _ => trivial

theorem mutual_exclusion_writerAndReader :
    (((State.new true).run writerAndReader).threads false).outer = 1 ∧
      Exclusion ((State.new true).run writerAndReader) := by
  refine ⟨by decide, mutual_exclusion true writerAndReader ?_⟩
  have hsmall : Along (fun s a => Polite s a ∧ s.lockCount + 1 < 2 ^ 31) State.step
      (State.new true) writerAndReader := by decide
  exact hsmall.mono fun _ _ h => ⟨h.1, .of_lt h.2⟩

/-! ## Too many readers -/

/-- One thread has taken the read lock `n` times, and the count is `c`. -/
def holding (c : Int) (n : Nat) : State Unit where
  writeFirst := false
  writeThreadID := none
  lockCount := c
  writeWaitCount := 0
  threads _ := { outer := n }

/-- The thread is about to take it once more. -/
def reading (c : Int) (n : Nat) (pc : Pc) : State Unit :=
  { holding c n with threads := fun _ => { pc, outer := n } }

/-- The thread calls `LockRead` `n` times. -/
def reads : Nat → List (Unit × Act)
  | 0 => []
  | n + 1 => reads n ++ (((), .lockRead) :: goes () 3)

theorem setThread_unit (s : State Unit) (l : Local) :
    s.setThread () l = { s with threads := fun _ => l } := by
  have hupdate : Function.update s.threads () l = fun _ => l := by
    funext u
    exact Function.update_self () l s.threads
  rw [State.setThread, hupdate]

theorem holding_read {c : Int} (n : Nat) (hc : c ≠ lockStatusWrite) :
    (holding c n).run (((), .lockRead) :: goes () 3) = holding (int (c + 1)) (n + 1) := by
  have hbegin : (holding c n).step ((), .lockRead) = reading c n .readCheck := setThread_unit _ _
  have hcheck : (reading c n .readCheck).step ((), .go false) = reading c n .readLoad :=
    setThread_unit _ _
  have hload : (reading c n .readLoad).step ((), .go false) = reading c n (.readExchange c) := by
    show (if c = lockStatusWrite then _ else _) = _
    rw [if_neg hc]
    exact setThread_unit _ _
  have hexchange : (reading c n (.readExchange c)).step ((), .go false) =
      holding (int (c + 1)) (n + 1) := by
    show (if c = c ∧ false = false then _ else _) = _
    rw [if_pos ⟨rfl, rfl⟩]
    exact setThread_unit _ _
  simp only [State.run, goes, List.replicate, List.foldl_cons, List.foldl_nil]
  rw [hbegin, hcheck, hload, hexchange]

theorem holding_reads (n : Nat) (hn : n < 2 ^ 31) : (State.new false).run (reads n) = holding n n := by
  induction n with
  | zero => rfl
  | succ n ih =>
      have hnot : (n : Int) ≠ lockStatusWrite := by
        unfold lockStatusWrite
        omega
      rw [reads, State.run, List.foldl_append]
      refine (congrArg (State.run · _) (ih (by omega))).trans ((holding_read n hnot).trans ?_)
      rw [int_eq (by omega) (by omega)]
      rfl

/-- The call after which the count does not fit. -/
theorem holding_over (n : Nat) (hn : n + 1 = 2 ^ 31) :
    (State.new false).run (reads (n + 1)) = holding (int (n + 1)) (n + 1) := by
  have hnot : (n : Int) ≠ lockStatusWrite := by
    unfold lockStatusWrite
    omega
  rw [reads, State.run, List.foldl_append]
  exact (congrArg (State.run · _) (holding_reads n (by omega))).trans (holding_read n hnot)

theorem reads_polite (n : Nat) (s : State Unit) : ∀ a ∈ reads n, Polite s a := by
  induction n with
  | zero => exact nofun
  | succ n ih =>
      intro a ha
      rcases List.mem_append.1 ha with hfirst | hlast
      · exact ih a hfirst
      · rcases List.mem_cons.1 hlast with rfl | hgo
        · trivial
        · rw [List.eq_of_mem_replicate hgo]
          trivial

theorem count_overflow : ¬ ∀ (writeFirst : Bool) (as : List (Unit × Act)),
    Along Polite State.step (State.new writeFirst) as → Exclusion ((State.new writeFirst).run as) := by
  intro h
  obtain ⟨n, hn⟩ : ∃ n : Nat, n + 1 = 2 ^ 31 := ⟨2 ^ 31 - 1, by omega⟩
  have hcounted := (h false (reads (n + 1)) (.of_forall (fun s => reads_polite (n + 1) s) _)).counted
  rw [holding_over n hn] at hcounted
  have heq : int (n + 1) = (n : Int) + 1 := by simpa [holding, Local.won] using hcounted
  have hlt : int (n + 1) < 2 ^ 31 := Int.bmod_lt (by decide)
  omega

/-! ## Nesting -/

/-- What nested calls may rely on: as long as a thread has given back fewer write locks than it has
taken, no other has a lock; with all locks given back the lock is as at first. -/
structure NestingSafe (s : State ι) : Prop where
  exclusive : ∀ t, 0 < (s.threads t).writes → ∀ u, u ≠ t →
    (s.threads u).outer = 0 ∧ (s.threads u).inner = 0 ∧ (s.threads u).writes = 0 ∧
      (s.threads u).won = 0
  released : (∀ t, s.threads t = {}) → s.lockCount = lockStatusFree ∧ s.writeThreadID = none

omit [DecidableEq ι] in
theorem Inv.released (h : Inv s) (hnone : ∀ t, s.threads t = {}) :
    s.lockCount = lockStatusFree ∧ s.writeThreadID = none := by
  constructor
  · have hcount := h.count
    rw [Finset.sum_eq_zero fun u _ => congrArg Local.won (hnone u),
      Finset.sum_eq_zero fun u _ => congrArg Local.outer (hnone u)] at hcount
    simpa [lockStatusFree] using hcount
  · refine Option.eq_none_iff_forall_ne_some.2 fun t ht => ?_
    have hpublished := (h.id t).1 ht
    rw [hnone t] at hpublished
    cases hpublished

/-- **Nested locks are safe** in every run in which `UnLockWrite` comes last. -/
theorem nesting_safe (writeFirst : Bool) (as : List (ι × Act))
    (has : Along (fun s a => OutermostLast s a ∧ Room s a) State.step (State.new writeFirst) as) :
    NestingSafe ((State.new writeFirst).run as) := by
  have hinv : Inv ((State.new writeFirst).run as) :=
    has.invariant (I := Inv) (fun s a ha h => h.step a ha.2 ha.1) (Inv.new writeFirst)
  exact ⟨fun t ht u hne => hinv.exclusive ht hne, hinv.released⟩

instance {κ : Type} (s : State κ) : DecidablePred (OutermostLast s)
  | (_, .lockRead) => inferInstanceAs (Decidable True)
  | (_, .unLockRead) => inferInstanceAs (Decidable True)
  | (_, .lockWrite) => inferInstanceAs (Decidable True)
  | (t, .unLockWrite) =>
      inferInstanceAs (Decidable ((s.threads t).writes ≤ 1 ∧ (s.threads t).inner = 0))
  | (_, .go _) => inferInstanceAs (Decidable True)

/-- The write lock is taken twice, a read lock inside it, and another thread tries to write. -/
def nestedGuards : List (Bool × Act) :=
  (true, .lockWrite) :: goes true 5 ++ (true, .lockWrite) :: goes true 1 ++
    (true, .lockRead) :: goes true 1 ++ (false, .lockWrite) :: goes false 4 ++
    (true, .unLockRead) :: goes true 1

theorem nesting_safe_nestedGuards :
    (((State.new false).run nestedGuards).threads true).writes = 2 ∧
      NestingSafe ((State.new false).run nestedGuards) := by
  refine ⟨by decide, nesting_safe false nestedGuards ?_⟩
  have hsmall : Along (fun s a => OutermostLast s a ∧ s.lockCount + 1 < 2 ^ 31) State.step
      (State.new false) nestedGuards := by decide
  exact hsmall.mono fun _ _ h => ⟨h.1, .of_lt h.2⟩

/-- The inner of two nested write guards is destroyed, and another thread takes the lock. -/
def innerReleased : List (Bool × Act) :=
  (true, .lockWrite) :: goes true 5 ++ (true, .lockWrite) :: goes true 1 ++
    (true, .unLockWrite) :: goes true 4 ++ (false, .lockWrite) :: goes false 5

theorem inner_release_frees : ¬ ∀ (writeFirst : Bool) (as : List (Bool × Act)),
    NestingSafe ((State.new writeFirst).run as) := by
  intro h
  obtain ⟨-, -, hwrites, -⟩ := (h true innerReleased).exclusive true (by decide) false (by decide)
  exact absurd hwrites (by decide)

end CUtils.RWLocks
