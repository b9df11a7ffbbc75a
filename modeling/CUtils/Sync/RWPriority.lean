import CUtils.Sync.RWExclusion

/-!
# Writers first

In write-first mode `LockRead` looks at `writeWaitCount_` before its compare-exchange. As long as a
writer waits the count is positive (`Counted`), so only a reader that has looked already can still
take the lock, once (`writers_first`).

It is looked at by every reader, one that has a read lock included: if it asks for another while a
writer waits, both wait for ever (`reread_deadlocks`).
-/

namespace CUtils.RWLocks

open Finset Threads StateRun

/-- The writer is counted in `writeWaitCount_`. -/
def Pc.waits : Pc → Nat
  | .writeExchange | .writeSub => 1
  | _ => 0

theorem Pc.waits_le (pc : Pc) : pc.waits ≤ 1 := by
  unfold Pc.waits
  split <;> decide

/-- The reader has seen that no writer waits. -/
def Pc.passed : Pc → Nat
  | .readExchange _ => 1
  | _ => 0

namespace State

variable {ι : Type} [DecidableEq ι]

/-- The step counts a read lock of `t`. -/
def takesRead (s : State ι) (t : ι) : ι × Act → Bool
  | (u, .go spurious) =>
      match (s.threads t).pc with
      | .readExchange count => u = t && s.lockCount = count && !spurious
      | _ => false
  | _ => false

/-- How many read locks of `t` are counted in the run. -/
def readsTaken (t : ι) : State ι → List (ι × Act) → Nat
  | _, [] => 0
  | s, a :: as => (s.takesRead t a).toNat + readsTaken t (s.step a) as

end State

variable {ι : Type} [DecidableEq ι] {s s' : State ι} {t u : ι} {l : Local}

/-! ## The count of the waiting writers -/

section

variable [Fintype ι]

structure Counted (s : State ι) : Prop where
  first : s.writeFirst = true
  waiting : s.writeWaitCount = BitVec.ofNat 32 (∑ u, (s.threads u).pc.waits)

/-- One thread goes on, and the count follows. -/
theorem Counted.move (h : Counted s) (hfirst : s'.writeFirst = s.writeFirst)
    (hthreads : s'.threads = Function.update s.threads t l)
    (hcount : s'.writeWaitCount + BitVec.ofNat 32 (s.threads t).pc.waits =
      s.writeWaitCount + BitVec.ofNat 32 l.pc.waits) : Counted s' := by
  refine ⟨hfirst.trans h.first, ?_⟩
  have hsum := sum_update (fun l => l.pc.waits) s.threads t l
  have hcast := congrArg (BitVec.ofNat 32) hsum
  rw [BitVec.ofNat_add, BitVec.ofNat_add, ← h.waiting, ← hcount] at hcast
  rw [hthreads]
  exact ((BitVec.add_left_inj _).1 hcast).symm

theorem Counted.quiet (h : Counted s) (hfirst : s'.writeFirst = s.writeFirst)
    (hthreads : s'.threads = Function.update s.threads t l)
    (hcount : s'.writeWaitCount = s.writeWaitCount) (hwaits : l.pc.waits = (s.threads t).pc.waits) :
    Counted s' :=
  h.move hfirst hthreads (by rw [hcount, hwaits])

theorem Counted.go (h : Counted s) (t : ι) (spurious : Bool) : Counted (s.go t spurious) := by
  rw [State.go]
  cases hpc : (s.threads t).pc with
  | idle => exact h
  | readCheck =>
      show Counted (if _ then _ else _)
      split
      · exact h.quiet rfl rfl rfl (by rw [hpc]; rfl)
      · exact h.quiet rfl rfl rfl (by rw [hpc]; rfl)
  | readLoad =>
      show Counted (if _ then _ else s.goto t (if _ then _ else _))
      split
      · exact h
      · refine h.quiet rfl rfl rfl ?_
        rw [hpc]
        split <;> rfl
  | readWaiting count =>
      refine h.quiet rfl rfl rfl ?_
      rw [hpc]
      show Pc.waits (if _ then _ else _) = _
      split <;> rfl
  | readExchange count =>
      show Counted (if _ then _ else _)
      split
      · exact h.quiet rfl rfl rfl (by rw [hpc]; rfl)
      · exact h.quiet rfl rfl rfl (by rw [hpc]; rfl)
  | unreadCheck =>
      show Counted (if _ then _ else _)
      split
      · exact h.quiet rfl rfl rfl (by rw [hpc]; rfl)
      · refine h.quiet rfl rfl rfl ?_
        rw [hpc, Local.unreadInner]
        split <;> rfl
  | unreadSub =>
      refine h.quiet rfl rfl rfl ?_
      rw [hpc, Local.unread]
      split <;> rfl
  | writeCheck =>
      show Counted (if _ then _ else _)
      split
      · exact h.quiet rfl rfl rfl (by rw [hpc]; rfl)
      · exact h.quiet rfl rfl rfl (by rw [hpc]; rfl)
  | writeAdd =>
      refine h.move rfl rfl ?_
      rw [hpc]
      exact BitVec.add_zero _
  | writeExchange =>
      show Counted (if _ then _ else _)
      split
      · exact h.quiet rfl rfl rfl (by rw [hpc]; rfl)
      · exact h
  | writeSub =>
      refine h.move rfl rfl ?_
      rw [hpc]
      exact (BitVec.sub_add_cancel _ _).trans (BitVec.add_zero _).symm
  | writeId => exact h.quiet rfl rfl rfl (by rw [hpc]; rfl)
  | unwriteCheck =>
      refine h.quiet rfl rfl rfl ?_
      rw [hpc]
      show Pc.waits (if _ then _ else _) = _
      split <;> rfl
  | unwriteLoad =>
      refine h.quiet rfl rfl rfl ?_
      rw [hpc]
      show Pc.waits (if _ then _ else _) = _
      split <;> rfl
  | unwriteId => exact h.quiet rfl rfl rfl (by rw [hpc]; rfl)
  | unwriteStore => exact h.quiet rfl rfl rfl (by rw [hpc]; rfl)

theorem Counted.start (h : Counted s) (hpc : (s.threads t).pc = .idle) (a : Act) :
    Counted (s.start t a) := by
  cases a with
  | lockRead => exact h.quiet rfl rfl rfl (by rw [hpc]; rfl)
  | unLockRead =>
      show Counted (if _ then _ else _)
      split
      · exact h.quiet rfl rfl rfl (by rw [hpc]; rfl)
      · exact h
  | lockWrite => exact h.quiet rfl rfl rfl (by rw [hpc]; rfl)
  | unLockWrite =>
      show Counted (if _ then _ else _)
      split
      · exact h.quiet rfl rfl rfl (by rw [hpc]; rfl)
      · exact h
  | go spurious => exact h

theorem Counted.step (h : Counted s) (a : ι × Act) : Counted (s.step a) := by
  obtain ⟨t, a⟩ := a
  have hstart : Counted (if (s.threads t).pc = .idle then s.start t a else s) := by
    split
    · rename_i hpc
      exact h.start hpc a
    · exact h
  cases a with
  | go spurious => exact h.go t spurious
  | lockRead | unLockRead | lockWrite | unLockWrite => exact hstart

omit [DecidableEq ι] in
theorem Counted.new : Counted (State.new true : State ι) := by
  refine ⟨rfl, ?_⟩
  show 0#32 = BitVec.ofNat 32 (∑ _u : ι, 0)
  rw [sum_const_zero]

omit [DecidableEq ι] in
/-- A waiting writer is seen, if there are not more threads than the count can hold. -/
theorem Counted.positive (h : Counted s) (hcard : Fintype.card ι < 2 ^ 32)
    (hpc : (s.threads u).pc = .writeExchange) : s.writeWaitCount.toNat > 0 := by
  have hone : (s.threads u).pc.waits = 1 := by rw [hpc]; rfl
  have hle := le_sum (fun l : Local => l.pc.waits) s.threads u
  have hsum : ∑ v, (s.threads v).pc.waits ≤ ∑ _v : ι, 1 := sum_le_sum fun v _ => Pc.waits_le _
  rw [← card_eq_sum_ones, card_univ] at hsum
  rw [h.waiting, BitVec.toNat_ofNat, Nat.mod_eq_of_lt (by omega)]
  omega

end

/-! ## Readers -/

theorem go_other (hne : u ≠ t) (spurious : Bool) :
    (s.go t spurious).threads u = s.threads u := by
  rw [State.go]
  cases (s.threads t).pc <;>
    simp only [State.goto, State.setThread, apply_ite State.threads, ite_apply,
      Function.update_of_ne hne, ite_self]

theorem start_other (hne : u ≠ t) (a : Act) : (s.start t a).threads u = s.threads u := by
  cases a <;>
    simp only [State.start, State.goto, State.setThread, apply_ite State.threads, ite_apply,
      Function.update_of_ne hne, ite_self]

theorem step_other {a : ι × Act} (hne : u ≠ a.1) : (s.step a).threads u = s.threads u := by
  obtain ⟨t, a⟩ := a
  have hstart : (if (s.threads t).pc = .idle then s.start t a else s).threads u = s.threads u := by
    split
    · exact start_other hne a
    · rfl
  cases a with
  | go spurious => exact go_other hne spurious
  | lockRead | unLockRead | lockWrite | unLockWrite => exact hstart

theorem takesRead_other {a : ι × Act} (hne : t ≠ a.1) : s.takesRead t a = false := by
  obtain ⟨u, a⟩ := a
  cases a with
  | go spurious =>
      rw [State.takesRead]
      cases (s.threads t).pc with
      | readExchange count => simp [Ne.symm hne]
      | _ => rfl
  | lockRead | unLockRead | lockWrite | unLockWrite => rfl

/-- A thread that starts a call has not looked yet. -/
theorem start_passed (hpc : (s.threads t).pc = .idle) (a : Act) :
    ((s.start t a).threads t).pc.passed = 0 := by
  have hidle : (s.threads t).pc.passed = 0 := by rw [hpc]; rfl
  cases a with
  | lockRead | lockWrite => simp [State.start, State.goto, State.setThread, Pc.passed]
  | unLockRead | unLockWrite =>
      rw [State.start]
      split
      · simp [State.goto, State.setThread, Pc.passed]
      · exact hidle
  | go spurious => exact hidle

/-- While a writer waits, a reader that has looked already takes the lock or has to look again. -/
theorem go_passed (hfirst : s.writeFirst = true) (hwait : s.writeWaitCount.toNat > 0)
    (spurious : Bool) : (s.takesRead t (t, .go spurious)).toNat +
      ((s.go t spurious).threads t).pc.passed ≤ (s.threads t).pc.passed := by
  rw [State.takesRead, State.go]
  cases hpc : (s.threads t).pc with
  | readExchange count =>
      by_cases htake : s.lockCount = count ∧ spurious = false
      · simp [htake, State.setThread, Pc.passed]
      · have hfails : (decide (s.lockCount = count) && !spurious) = false := by
          cases spurious <;> simp_all
        simp [htake, hfails, State.goto, State.setThread, Pc.passed]
  | readWaiting count => simp [hwait, State.goto, State.setThread, Pc.passed]
  | readLoad =>
      by_cases hwrite : s.lockCount = lockStatusWrite
      · simp [hwrite, hpc]
      · simp [hwrite, hfirst, State.goto, State.setThread, Pc.passed]
  | idle => simp [hpc]
  | readCheck | unreadCheck | writeCheck =>
      dsimp only
      split <;> simp [State.goto, State.setThread, Local.unreadInner, apply_ite Local.pc, Pc.passed]
  | writeExchange =>
      dsimp only
      split <;> simp [State.goto, State.setThread, hpc, Pc.passed]
  | unreadSub => simp [State.setThread, Local.unread, apply_ite Local.pc, Pc.passed]
  | writeAdd | writeSub | writeId | unwriteId | unwriteStore =>
      simp [State.goto, State.setThread, Pc.passed]
  | unwriteCheck | unwriteLoad =>
      simp only [State.goto, State.setThread, Function.update_self]
      split <;> simp [Pc.passed]

theorem step_passed (hfirst : s.writeFirst = true) (hwait : s.writeWaitCount.toNat > 0) (t : ι)
    (a : ι × Act) :
    (s.takesRead t a).toNat + ((s.step a).threads t).pc.passed ≤ (s.threads t).pc.passed := by
  by_cases hne : t = a.1
  · obtain ⟨u, a⟩ := a
    obtain rfl : t = u := hne
    have hstart : ((if (s.threads t).pc = .idle then s.start t a else s).threads t).pc.passed ≤
        (s.threads t).pc.passed := by
      split
      · rename_i hpc
        rw [start_passed hpc a]
        exact Nat.zero_le _
      · exact Nat.le_refl _
    cases a with
    | go spurious => exact go_passed hfirst hwait spurious
    | lockRead | unLockRead | lockWrite | unLockWrite =>
        exact Nat.le_trans (Nat.le_of_eq (Nat.zero_add _)) hstart
  · rw [takesRead_other hne, step_other hne]
    exact Nat.le_of_eq (Nat.zero_add _)

variable [Fintype ι] {w : ι}

/-- **Writers first.** As long as a writer waits, no thread is given a read lock, but for those that
have looked before it came, and these once. -/
theorem writers_first (hcard : Fintype.card ι < 2 ^ 32) (as bs : List (ι × Act)) (w : ι)
    (hw : Along (fun s _ => (s.threads w).pc = .writeExchange) State.step
      ((State.new true).run as) bs) (t : ι) :
    State.readsTaken t ((State.new true).run as) bs ≤
      (((State.new true).run as).threads t).pc.passed := by
  have hcounted : Counted ((State.new true).run as) := by
    have hall : Along (fun _ _ => True) State.step (State.new true : State ι) as :=
      Along.of_forall (fun _ _ _ => trivial) _
    exact hall.invariant (fun s a _ h => h.step a) Counted.new
  generalize (State.new true).run as = s at hw hcounted
  induction bs generalizing s with
  | nil => exact Nat.zero_le _
  | cons b bs ih =>
      have hrest := ih (s.step b) hw.2 (hcounted.step b)
      have hstep := step_passed hcounted.first (hcounted.positive hcard hw.1) t b
      rw [State.readsTaken]
      omega

/-! ## Reading again -/

/-- `t` has a read lock and asks for another, while `w` waits for the write lock. -/
structure Blocked (t w : ι) (s : State ι) : Prop where
  inv : Inv s
  counted : Counted s
  holds : 0 < (s.threads t).outer
  asks : (s.threads t).pc = .readLoad ∨ ∃ count, (s.threads t).pc = .readWaiting count
  waits : (s.threads w).pc = .writeExchange

omit [DecidableEq ι] in
/-- The count is that of read locks. -/
theorem Blocked.count (h : Blocked t w s) : 0 < s.lockCount := by
  have hle := le_sum Local.outer s.threads t
  have hholds := h.holds
  have hone := h.inv.one
  have hexcludes := h.inv.excludes
  have hcount := h.inv.count
  omega

omit [Fintype ι] in
/-- A thread in the middle of a call starts no other. -/
theorem step_of_busy (hpc : (s.threads t).pc ≠ .idle) (a : Act) :
    s.step (t, a) = s ∨ ∃ spurious, a = .go spurious := by
  cases a with
  | go spurious => exact .inr ⟨spurious, rfl⟩
  | lockRead | unLockRead | lockWrite | unLockWrite => exact .inl (if_neg hpc)

theorem Blocked.writer (h : Blocked t w s) (a : ι × Act) :
    ((s.step a).threads w).pc = .writeExchange := by
  by_cases hne : w = a.1
  · obtain ⟨u, a⟩ := a
    obtain rfl : w = u := hne
    have hbusy : (s.threads w).pc ≠ .idle := by simp [h.waits]
    rcases step_of_busy hbusy a with hstep | ⟨spurious, rfl⟩
    · rw [hstep]
      exact h.waits
    · have hcount := h.count
      have hfails : ¬ (s.lockCount = lockStatusFree ∧ spurious = false) := by
        intro hfree
        rw [hfree.1] at hcount
        exact absurd hcount (Int.lt_irrefl 0)
      show ((s.go w spurious).threads w).pc = _
      simp only [State.go, h.waits, if_neg hfails]
  · rw [step_other hne]
    exact h.waits

theorem Blocked.reader (hcard : Fintype.card ι < 2 ^ 32) (h : Blocked t w s) (a : ι × Act) :
    ((s.step a).threads t).outer = (s.threads t).outer ∧ (((s.step a).threads t).pc = .readLoad ∨
      ∃ count, ((s.step a).threads t).pc = .readWaiting count) := by
  by_cases hne : t = a.1
  · obtain ⟨u, a⟩ := a
    obtain rfl : t = u := hne
    have hbusy : (s.threads t).pc ≠ .idle := by rcases h.asks with hpc | ⟨count, hpc⟩ <;> simp [hpc]
    rcases step_of_busy hbusy a with hstep | ⟨spurious, rfl⟩
    · rw [hstep]
      exact ⟨rfl, h.asks⟩
    · have hstep : s.step (t, .go spurious) = s.go t spurious := rfl
      rcases h.asks with hpc | ⟨count, hpc⟩
      · have hcount := h.count
        have hwrite : s.lockCount ≠ lockStatusWrite := by
          intro hwrite
          rw [hwrite] at hcount
          exact absurd hcount (by decide)
        have hgo : s.go t spurious = s.goto t (.readWaiting s.lockCount) := by
          simp only [State.go, hpc, if_neg hwrite, h.counted.first, if_true]
        rw [hstep, hgo, State.goto, State.setThread]
        simp only [Function.update_self]
        exact ⟨trivial, .inr ⟨s.lockCount, rfl⟩⟩
      · have hwait := h.counted.positive hcard h.waits
        have hgo : s.go t spurious = s.goto t .readLoad := by
          simp only [State.go, hpc, if_pos hwait]
        rw [hstep, hgo, State.goto, State.setThread]
        simp only [Function.update_self]
        exact ⟨trivial, .inl trivial⟩
  · rw [step_other hne]
    exact ⟨rfl, h.asks⟩

theorem Blocked.step (hcard : Fintype.card ι < 2 ^ 32) (h : Blocked t w s) {a : ι × Act}
    (ha : OutermostLast s a ∧ Room s a) : Blocked t w (s.step a) := by
  obtain ⟨houter, hasks⟩ := h.reader hcard a
  exact ⟨h.inv.step a ha.2 ha.1, h.counted.step a, houter ▸ h.holds, hasks, h.writer a⟩

/-- A thread reads, the other one waits for the write lock, and the first is about to ask again. -/
def rereading : List (Bool × Act) :=
  (false, .lockRead) :: goes false 4 ++ (true, .lockWrite) :: goes true 2 ++
    (false, .lockRead) :: goes false 1

/-- Both of them try on. -/
def waiting : List (Bool × Act) := goes false 5 ++ goes true 3 ++ goes false 2

theorem writers_first_rereading :
    State.readsTaken false ((State.new true).run rereading) waiting ≤
      (((State.new true).run rereading).threads false).pc.passed :=
  writers_first (by decide) rereading waiting true (by decide) false

end CUtils.RWLocks
