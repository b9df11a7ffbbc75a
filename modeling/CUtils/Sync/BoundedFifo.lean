import Mathlib.Algebra.BigOperators.Group.Finset.Piecewise
import CUtils.Sync.BlockQueue

/-!
# The queue is bounded and first-in first-out, and no wake-up is lost

An element in the queue has somebody who will take it, or nobody sleeps for it: a consumer that has
been notified, one that has the mutex and is going to look, or a producer that has still to notify
(`Pc.takes`). The same goes for the free slots and the producers (`Pc.fills`). A step moves such a
claim from one thread to the next, or takes it away together with the element or the slot.
-/

namespace CUtils.BlockQueues

open Finset Threads StateRun

variable {ι α : Type}

/-- The thread answers for an element of the queue. -/
def Pc.takes : Pc α → Nat
  | .notified .pop | .body .pop | .count | .notify .notEmpty => 1
  | _ => 0

/-- The thread answers for a free slot. -/
def Pc.fills : Pc α → Nat
  | .notified (.push _) | .body (.push _) | .notify .notFull => 1
  | _ => 0

/-- Somebody sleeps on `cv` and has not been notified. -/
def Sleeping (s : State ι α) (cv : Cv) : Prop := ∃ u, (s.threads u).sleepsOn cv = true

variable [DecidableEq ι] [Fintype ι] {s s' : State ι α} {t : ι}

structure Inv (s : State ι α) : Prop where
  guarded : Guarded Pc.inside s.owner s.threads
  bounded : s.queue.length ≤ s.maxSize
  fifo : s.pushed = s.popped ++ s.queue
  consumers : Sleeping s .notEmpty → s.queue.length ≤ ∑ u, (s.threads u).takes
  producers : Sleeping s .notFull → s.maxSize ≤ s.queue.length + ∑ u, (s.threads u).fills

omit [DecidableEq ι] in
theorem Inv.new (maxSize : Nat) (tracking : Bool) : Inv (State.new maxSize tracking : State ι α) where
  guarded _ := iff_of_false nofun nofun
  bounded := Nat.zero_le _
  fifo := rfl
  consumers := fun ⟨_, h⟩ => absurd h nofun
  producers := fun ⟨_, h⟩ => absurd h nofun

/-! ## What threads do to the claims -/

/-- The queue and what is known of it are as before. -/
structure SameQueue (s s' : State ι α) : Prop where
  maxSize : s'.maxSize = s.maxSize
  queue : s'.queue = s.queue
  pushed : s'.pushed = s.pushed
  popped : s'.popped = s.popped

omit [Fintype ι] in
/-- Who sleeps after a thread has gone on slept before, or is that thread. -/
theorem sleeping_update {y : Pc α} {cv : Cv} (h : s'.threads = Function.update s.threads t y)
    (hsleep : Sleeping s' cv) : Sleeping s cv ∨ y.sleepsOn cv = true := by
  obtain ⟨u, hu⟩ := hsleep
  rw [h] at hu
  by_cases hut : u = t
  · rw [hut, Function.update_self] at hu
    exact Or.inr hu
  · rw [Function.update_of_ne hut] at hu
    exact Or.inl ⟨u, hu⟩

omit [DecidableEq ι] in
/-- Threads leave places and come to others, and elements come and go along with it. -/
theorem Inv.moves (h : Inv s) (lost gained : (Pc α → Nat) → Nat)
    (hsums : ∀ f : Pc α → Nat, ∑ u, f (s'.threads u) + lost f = ∑ u, f (s.threads u) + gained f)
    (hguarded : Guarded Pc.inside s'.owner s'.threads)
    (hsleep : ∀ cv, cv ≠ .allTasksDone → Sleeping s' cv → Sleeping s cv)
    (hmax : s'.maxSize = s.maxSize) (hbounded : s'.queue.length ≤ s'.maxSize)
    (hfifo : s'.pushed = s'.popped ++ s'.queue)
    (htakes : s'.queue.length + lost Pc.takes ≤ s.queue.length + gained Pc.takes)
    (hfills : s.queue.length + lost Pc.fills ≤ s'.queue.length + gained Pc.fills) : Inv s' where
  guarded := hguarded
  bounded := hbounded
  fifo := hfifo
  consumers hsleeping := by
    have hle := h.consumers (hsleep _ nofun hsleeping)
    have hsum := hsums Pc.takes
    omega
  producers hsleeping := by
    have hle := h.producers (hsleep _ nofun hsleeping)
    have hsum := hsums Pc.fills
    omega

theorem sums_update (s' : State ι α) {x y : Pc α} (hx : s.threads t = x)
    (hthreads : s'.threads = Function.update s.threads t y) (f : Pc α → Nat) :
    ∑ u, f (s'.threads u) + f x = ∑ u, f (s.threads u) + f y := by
  rw [hthreads, ← hx]
  exact sum_update f s.threads t y

/-- A thread goes on without touching the queue, and keeps what it answers for. -/
theorem Inv.quiet {x y : Pc α} (h : Inv s) (hx : s.threads t = x)
    (hthreads : s'.threads = Function.update s.threads t y)
    (hguarded : Guarded Pc.inside s'.owner s'.threads) (hsame : SameQueue s s')
    (hsleep : ∀ cv, cv ≠ .allTasksDone → y.sleepsOn cv = false)
    (htakes : x.takes ≤ y.takes) (hfills : x.fills ≤ y.fills) : Inv s' := by
  refine h.moves (fun f => f x) (fun f => f y) (sums_update _ hx hthreads) hguarded ?_ hsame.maxSize
    ?_ ?_ ?_ ?_
  · intro cv hcv hsleeping
    rcases sleeping_update hthreads hsleeping with hbefore | hnew
    · exact hbefore
    · rw [hsleep cv hcv] at hnew
      cases hnew
  · rw [hsame.queue, hsame.maxSize]
    exact h.bounded
  · rw [hsame.pushed, hsame.popped, hsame.queue]
    exact h.fifo
  · rw [hsame.queue]
    omega
  · rw [hsame.queue]
    omega

/-- The same, for a thread that neither takes nor gives back the mutex. -/
theorem Inv.goto {x y : Pc α} (h : Inv s) (hx : s.threads t = x)
    (hthreads : s'.threads = Function.update s.threads t y) (howner : s'.owner = s.owner)
    (hsame : SameQueue s s') (hinside : y.inside = x.inside)
    (hsleep : ∀ cv, cv ≠ .allTasksDone → y.sleepsOn cv = false)
    (htakes : x.takes ≤ y.takes) (hfills : x.fills ≤ y.fills) : Inv s' := by
  refine h.quiet hx hthreads ?_ hsame hsleep htakes hfills
  rw [howner, hthreads]
  refine h.guarded.stay ?_
  rw [hx]
  exact hinside

/-- Only the thread moves on. -/
theorem Inv.passed {x y : Pc α} (h : Inv s) (hx : s.threads t = x) (hinside : y.inside = x.inside)
    (hsleep : ∀ cv, y.sleepsOn cv = false) (htakes : x.takes ≤ y.takes) (hfills : x.fills ≤ y.fills) :
    Inv (s.goto t y) :=
  h.goto hx rfl rfl ⟨rfl, rfl, rfl, rfl⟩ hinside (fun cv _ => hsleep cv) htakes hfills

theorem Inv.lock {x : Pc α} {call : Call α} (h : Inv s) (hx : s.threads t = x)
    (htakes : x.takes ≤ (Pc.body call).takes) (hfills : x.fills ≤ (Pc.body call).fills) :
    Inv (s.lock t (.body call)) := by
  unfold State.lock
  cases hfree : s.owner with
  | none =>
      exact h.quiet hx rfl (h.guarded.enter hfree rfl) ⟨rfl, rfl, rfl, rfl⟩ (fun _ _ => rfl) htakes hfills
  | some u => exact h

/-- Who falls asleep has found nothing to answer for. -/
theorem Inv.sleep {call : Call α} (h : Inv s) (hx : s.threads t = .body call)
    (hempty : call.cv = some .notEmpty → s.queue.length = 0)
    (hfull : call.cv = some .notFull → s.maxSize ≤ s.queue.length) : Inv (s.sleep t call) := by
  have hguarded : Guarded Pc.inside none (Function.update s.threads t (.asleep call)) :=
    h.guarded.leave (by rw [hx]; rfl) rfl
  have hsleeping : ∀ cv, Sleeping (s.sleep t call) cv → Sleeping s cv ∨ call.cv = some cv := by
    intro cv hsleep
    refine (sleeping_update (s := s) (t := t) (y := .asleep call) rfl hsleep).imp_right fun hnew => ?_
    simpa [Pc.sleepsOn] using hnew
  have htakes := sums_update (s.sleep t call) hx rfl Pc.takes
  have hfills := sums_update (s.sleep t call) hx rfl Pc.fills
  refine ⟨hguarded, h.bounded, h.fifo, fun hsleep => ?_, fun hsleep => ?_⟩
  · show s.queue.length ≤ _
    by_cases hcv : call.cv = some .notEmpty
    · rw [hempty hcv]
      exact Nat.zero_le _
    · have hle := h.consumers ((hsleeping _ hsleep).resolve_right hcv)
      have hzero : (Pc.body call).takes = 0 := by
        cases call <;> first | rfl | exact absurd rfl hcv
      omega
  · show s.maxSize ≤ s.queue.length + _
    by_cases hcv : call.cv = some .notFull
    · exact (hfull hcv).trans (Nat.le_add_right _ _)
    · have hle := h.producers ((hsleeping _ hsleep).resolve_right hcv)
      have hzero : (Pc.body call).fills = 0 := by
        cases call <;> first | rfl | exact absurd rfl hcv
      omega

/-- An element comes in, and its pusher is going to notify. -/
theorem Inv.enqueue {x y : Pc α} {elem : α} (h : Inv s) (hx : s.threads t = x)
    (hroom : s.queue.length < s.maxSize) (hinside : y.inside = x.inside)
    (hsleep : ∀ cv, y.sleepsOn cv = false) (htakes : x.takes + 1 ≤ y.takes)
    (hfills : x.fills ≤ 1 + y.fills) : Inv ((s.enqueue elem).goto t y) := by
  have hlen : (s.queue ++ [elem]).length = s.queue.length + 1 := List.length_append
  refine h.moves (fun f => f x) (fun f => f y) (sums_update _ hx rfl) ?_ ?_ rfl ?_ ?_ ?_ ?_
  · refine h.guarded.stay ?_
    rw [hx]
    exact hinside
  · intro cv _ hsleeping
    refine (sleeping_update (s := s) (t := t) (y := y) rfl hsleeping).resolve_right ?_
    rw [hsleep cv]
    exact nofun
  · show (s.queue ++ [elem]).length ≤ s.maxSize
    omega
  · show s.pushed ++ [elem] = s.popped ++ (s.queue ++ [elem])
    rw [h.fifo, List.append_assoc]
  · show (s.queue ++ [elem]).length + _ ≤ _
    omega
  · show _ ≤ (s.queue ++ [elem]).length + _
    omega

/-- An element goes out, and who took it is going to notify. -/
theorem Inv.dequeue {x : Pc α} {elem : α} {rest : List α} (h : Inv s) (hx : s.threads t = x)
    (hqueue : s.queue = elem :: rest) (hinside : x.inside = true) (htakes : x.takes ≤ 1)
    (hfills : x.fills = 0) : Inv ((s.dequeue elem rest).goto t (.notify .notFull)) := by
  have hlen : s.queue.length = rest.length + 1 := by rw [hqueue, List.length_cons]
  have hbounded := h.bounded
  refine h.moves (fun f => f x) (fun f => f (.notify .notFull)) (sums_update _ hx rfl) ?_ ?_ rfl ?_ ?_
    ?_ ?_
  · refine h.guarded.stay ?_
    rw [hx, hinside]
    rfl
  · intro cv _ hsleeping
    exact (sleeping_update (s := s) (t := t) (y := .notify .notFull) rfl hsleeping).resolve_right nofun
  · show rest.length ≤ s.maxSize
    omega
  · show s.pushed = s.popped ++ [elem] ++ rest
    rw [h.fifo, hqueue, List.append_assoc]
    rfl
  · show rest.length + x.takes ≤ s.queue.length + 0
    omega
  · show s.queue.length + x.fills ≤ rest.length + 1
    omega

theorem Inv.body {call : Call α} (h : Inv s) (hx : s.threads t = .body call) : Inv (s.body t call) := by
  cases call with
  | push elem =>
      show Inv (if _ then _ else _)
      split
      · rename_i hfull
        refine h.sleep hx (fun hcv => ?_) fun _ => hfull
        cases hcv
      · rename_i hroom
        exact h.enqueue hx (by omega) rfl (fun _ => rfl) le_rfl le_rfl
  | pop =>
      unfold State.body
      simp only
      split
      · rename_i hempty
        refine h.sleep hx (fun _ => by rw [hempty]; rfl) fun hcv => ?_
        cases hcv
      · rename_i elem rest hqueue
        exact h.dequeue hx hqueue rfl le_rfl rfl
  | pushNoWait elem =>
      show Inv (if _ then _ else _)
      split
      · exact h.passed hx rfl (fun _ => rfl) le_rfl le_rfl
      · rename_i hroom
        cases s.tracking with
        | true => exact h.enqueue hx (by omega) rfl (fun _ => rfl) le_rfl (Nat.zero_le _)
        | false => exact h.enqueue hx (by omega) rfl (fun _ => rfl) le_rfl (Nat.zero_le _)
  | popNotWait =>
      unfold State.body
      simp only
      split
      · exact h.passed hx rfl (fun _ => rfl) le_rfl le_rfl
      · rename_i elem rest hqueue
        exact h.dequeue hx hqueue rfl (Nat.zero_le _) rfl
  | oneTaskDone =>
      unfold State.body
      simp only
      split
      · split
        · exact h.passed hx rfl (fun _ => rfl) le_rfl le_rfl
        · exact h.passed hx rfl (fun _ => rfl) le_rfl le_rfl
      · exact h.passed hx rfl (fun _ => rfl) le_rfl le_rfl
  | join =>
      show Inv (if _ then _ else _)
      split
      · exact h.passed hx rfl (fun _ => rfl) le_rfl le_rfl
      · refine h.sleep hx (fun hcv => ?_) fun hcv => ?_
        · cases hcv
        · cases hcv

/-! ## Notifications -/

omit [DecidableEq ι] [Fintype ι] in
/-- A notified thread answers for what it slept on. -/
theorem wake_sleepsOn {pc : Pc α} {cv : Cv} (h : pc.sleepsOn cv = true) :
    (pc.wake cv).inside = false ∧ pc.inside = false ∧ (∀ cv', (pc.wake cv).sleepsOn cv' = false) ∧
      (pc.takes = 0 ∧ pc.fills = 0) ∧
      (Pc.notify cv : Pc α).takes ≤ (pc.wake cv).takes ∧
      (Pc.notify cv : Pc α).fills ≤ (pc.wake cv).fills := by
  cases pc with
  | asleep call =>
      have hcv : call.cv = some cv := by simpa [Pc.sleepsOn] using h
      have hwake : (Pc.asleep call).wake cv = .notified call := if_pos hcv
      rw [hwake]
      refine ⟨rfl, rfl, fun _ => rfl, ⟨rfl, rfl⟩, ?_, ?_⟩
      · cases call <;> cases cv <;> first | exact le_rfl | exact Nat.zero_le _ | cases hcv
      · cases call <;> cases cv <;> first | exact le_rfl | exact Nat.zero_le _ | cases hcv
  | _ => cases h

theorem Inv.notifyOne (h : Inv s) {cv : Cv} (hx : s.threads t = .notify cv) (woken : ι) :
    Inv (s.notifyOne t woken cv) := by
  unfold State.notifyOne
  split
  · split
    · rename_i hwoken
      obtain ⟨hinside, houtside, hsleep, ⟨htakes, hfills⟩, hclaim, hslot⟩ := wake_sleepsOn hwoken
      have hne : t ≠ woken := by
        rintro rfl
        rw [hx] at hwoken
        cases hwoken
      refine h.moves (fun f => f (.notify cv) + f (s.threads woken))
        (fun f => f .unlock + f ((s.threads woken).wake cv)) (fun f => ?_) ?_ ?_ rfl h.bounded h.fifo ?_ ?_
      · have hsum := sum_update_two f s.threads hne .unlock ((s.threads woken).wake cv)
        rw [hx] at hsum
        exact hsum
      · refine Guarded.stay (h.guarded.stay (hinside.trans houtside.symm)) ?_
        show Pc.unlock.inside = (Function.update s.threads woken _ t).inside
        rw [Function.update_of_ne hne, hx]
        rfl
      · intro cv' _ hsleeping
        have hmiddle := (sleeping_update (s := s.goto woken ((s.threads woken).wake cv)) (t := t)
          (y := .unlock) rfl hsleeping).resolve_right nofun
        refine (sleeping_update (s := s) (t := woken) rfl hmiddle).resolve_right ?_
        rw [hsleep cv']
        exact nofun
      · show s.queue.length + _ ≤ s.queue.length + (0 + _)
        omega
      · show s.queue.length + _ ≤ s.queue.length + (0 + _)
        omega
    · exact h
  · rename_i hnone
    -- nobody sleeps on `cv`, and for the other condition variable nothing changes
    have hguarded : Guarded Pc.inside s.owner (Function.update s.threads t .unlock) :=
      h.guarded.stay (by rw [hx]; rfl)
    have hsleeping : ∀ cv', Sleeping (s.goto t .unlock) cv' → Sleeping s cv' := fun cv' hsleep =>
      (sleeping_update (s := s) (t := t) (y := .unlock) rfl hsleep).resolve_right nofun
    have htakes := sums_update (s.goto t .unlock) hx rfl Pc.takes
    have hfills := sums_update (s.goto t .unlock) hx rfl Pc.fills
    refine ⟨hguarded, h.bounded, h.fifo, fun hsleep => ?_, fun hsleep => ?_⟩
    · have hbefore := hsleeping _ hsleep
      have hle := h.consumers hbefore
      have hzero : (Pc.notify cv : Pc α).takes = 0 := by
        cases cv <;> first | rfl | exact absurd hbefore hnone
      show s.queue.length ≤ _
      omega
    · have hbefore := hsleeping _ hsleep
      have hle := h.producers hbefore
      have hzero : (Pc.notify cv : Pc α).fills = 0 := by
        cases cv <;> first | rfl | exact absurd hbefore hnone
      show s.maxSize ≤ s.queue.length + _
      omega

omit [DecidableEq ι] [Fintype ι] in
/-- The consumers and the producers do not notice that all tasks are done. -/
theorem wake_allTasksDone (pc : Pc α) : (pc.wake .allTasksDone).inside = pc.inside ∧
    (pc.wake .allTasksDone).takes = pc.takes ∧ (pc.wake .allTasksDone).fills = pc.fills ∧
    ∀ cv, cv ≠ .allTasksDone → (pc.wake .allTasksDone).sleepsOn cv = pc.sleepsOn cv := by
  cases pc with
  | asleep call =>
      cases call with
      | join =>
          refine ⟨rfl, rfl, rfl, fun cv hcv => ?_⟩
          cases cv <;> first | rfl | exact absurd rfl hcv
      | _ => exact ⟨rfl, rfl, rfl, fun _ _ => rfl⟩
  | _ => exact ⟨rfl, rfl, rfl, fun _ _ => rfl⟩

omit [DecidableEq ι] in
theorem Inv.wakeAll (h : Inv s) : Inv { s with threads := fun u => (s.threads u).wake .allTasksDone } where
  guarded u := by rw [(wake_allTasksDone _).1]; exact h.guarded u
  bounded := h.bounded
  fifo := h.fifo
  consumers := by
    rintro ⟨u, hu⟩
    have hbefore : (s.threads u).sleepsOn .notEmpty = true :=
      ((wake_allTasksDone (s.threads u)).2.2.2 .notEmpty nofun).symm.trans hu
    simp only [wake_allTasksDone]
    exact h.consumers ⟨u, hbefore⟩
  producers := by
    rintro ⟨u, hu⟩
    have hbefore : (s.threads u).sleepsOn .notFull = true :=
      ((wake_allTasksDone (s.threads u)).2.2.2 .notFull nofun).symm.trans hu
    simp only [wake_allTasksDone]
    exact h.producers ⟨u, hbefore⟩

/-! ## Runs -/

theorem Inv.go (h : Inv s) (t woken : ι) : Inv (s.go t woken) := by
  unfold State.go
  cases ht : s.threads t with
  | idle => exact h
  | asleep call => exact h
  | increment elem => exact h.goto ht rfl rfl ⟨rfl, rfl, rfl, rfl⟩ rfl (fun _ _ => rfl) le_rfl le_rfl
  | lock call => exact h.lock ht (Nat.zero_le _) (Nat.zero_le _)
  | notified call =>
      refine h.lock ht ?_ ?_
      · cases call <;> exact le_rfl
      · cases call <;> exact le_rfl
  | awake call => exact h.lock ht (Nat.zero_le _) (Nat.zero_le _)
  | body call => exact h.body ht
  | count => exact h.goto ht rfl rfl ⟨rfl, rfl, rfl, rfl⟩ rfl (fun _ _ => rfl) le_rfl le_rfl
  | notify cv => exact h.notifyOne ht woken
  | notifyAll unfinished =>
      refine h.wakeAll.goto (t := t) (x := .notifyAll unfinished) ?_ rfl rfl ⟨rfl, rfl, rfl, rfl⟩ rfl
        (fun _ _ => rfl) le_rfl le_rfl
      show (s.threads t).wake .allTasksDone = _
      rw [ht]
      rfl
  | store unfinished => exact h.goto ht rfl rfl ⟨rfl, rfl, rfl, rfl⟩ rfl (fun _ _ => rfl) le_rfl le_rfl
  | unlock =>
      exact h.quiet ht rfl (h.guarded.leave (by rw [ht]; rfl) rfl) ⟨rfl, rfl, rfl, rfl⟩ (fun _ _ => rfl)
        le_rfl le_rfl

theorem Inv.start (h : Inv s) (ht : s.threads t = .idle) (call : Call α) : Inv (s.start t call) := by
  have hlock : ∀ call, Inv (s.goto t (.lock call)) := fun call =>
    h.passed ht rfl (fun _ => rfl) le_rfl le_rfl
  unfold State.start
  cases call with
  | push elem =>
      cases s.tracking with
      | true => exact h.passed ht rfl (fun _ => rfl) le_rfl le_rfl
      | false => exact hlock _
  | pop => exact hlock _
  | pushNoWait elem => exact hlock _
  | popNotWait => exact hlock _
  | oneTaskDone =>
      cases s.tracking with
      | true => exact hlock _
      | false => exact h
  | join =>
      cases s.tracking with
      | true => exact hlock _
      | false => exact h

theorem Inv.step (h : Inv s) (a : ι × Act ι α) : Inv (s.step a) := by
  obtain ⟨t, a⟩ := a
  cases a with
  | call call =>
      simp only [State.step]
      split
      · rename_i ht
        exact h.start ht call
      · exact h
  | go woken => exact h.go t woken
  | spurious =>
      simp only [State.step]
      split
      · rename_i call ht
        exact h.passed ht rfl (fun _ => rfl) le_rfl le_rfl
      · exact h

def Pc.notifiedOn (cv : Cv) : Pc α → Bool
  | .notified call => call.cv = some cv
  | _ => false

/-- How many have been notified on `cv` and do not yet have the mutex again. -/
def notifiedOn (s : State ι α) (cv : Cv) : Nat :=
  (univ.filter fun u => (s.threads u).notifiedOn cv = true).card

/-- The queue keeps to its size and its order, and nobody sleeps on without being needed. -/
structure BoundedFifo (s : State ι α) : Prop where
  bounded : s.queue.length ≤ s.maxSize
  fifo : s.popped <+: s.pushed
  consumers : s.owner = none → Sleeping s .notEmpty → s.queue.length ≤ notifiedOn s .notEmpty
  producers : s.owner = none → Sleeping s .notFull →
    s.maxSize - s.queue.length ≤ notifiedOn s .notFull

omit [DecidableEq ι] in
/-- While the mutex is free, only those who have been notified answer for anything. -/
theorem Inv.claims (h : Inv s) (hfree : s.owner = none) :
    ∑ u, (s.threads u).takes = notifiedOn s .notEmpty ∧
      ∑ u, (s.threads u).fills = notifiedOn s .notFull := by
  unfold notifiedOn
  rw [card_filter, card_filter]
  constructor
  · refine sum_congr rfl fun u _ => ?_
    have houtside := h.guarded.outside hfree u
    cases hu : s.threads u with
    | notified call => cases call <;> rfl
    | body call => rw [hu] at houtside; cases houtside
    | count => rw [hu] at houtside; cases houtside
    | notify cv => rw [hu] at houtside; cases houtside
    | _ => rfl
  · refine sum_congr rfl fun u _ => ?_
    have houtside := h.guarded.outside hfree u
    cases hu : s.threads u with
    | notified call => cases call <;> rfl
    | body call => rw [hu] at houtside; cases houtside
    | notify cv => rw [hu] at houtside; cases houtside
    | _ => rfl

/-- **A bounded queue, first in first out, that loses no wake-up**, for every capacity and every
order of the steps of any threads. -/
theorem bounded_fifo (maxSize : Nat) (tracking : Bool) (as : List (ι × Act ι α)) :
    BoundedFifo ((State.new maxSize tracking).run as) := by
  have hinv : Inv ((State.new maxSize tracking).run as) :=
    (Along.of_forall (C := fun _ _ => True) (fun _ _ _ => trivial) _).invariant (I := Inv)
      (fun s a _ h => h.step a) (Inv.new maxSize tracking)
  refine ⟨hinv.bounded, ⟨_, hinv.fifo.symm⟩, fun hfree hsleep => ?_, fun hfree hsleep => ?_⟩
  · rw [← (hinv.claims hfree).1]
    exact hinv.consumers hsleep
  · have hle := hinv.producers hsleep
    rw [← (hinv.claims hfree).2]
    omega

end CUtils.BlockQueues
