import CUtils.IOEvent.Steps
import CUtils.Lib.StateRun

/-!
# Masks and registrations in step

The union of the masks of the linked handlers is held three times: in the lists themselves, in
`ioHandlers_[fd].events` and in epoll. As long as epoll agrees, a linked handler keeps its
descriptor and stays alive, and `UpdateHandler` follows every change of its mask, the three are the
same after every call (`InStep`).
-/

namespace CUtils.IOEvent

open LinkedList Reactor StateRun

variable {ι : Type}

/-- The invariant, over the lists. -/
structure Tuned (r : Reactor ι) (L : Nat → List ι) : Prop where
  ready : Ready r L
  granted : ∀ n, r.answers n = true
  home : ∀ fd, ∀ i ∈ L fd, r.badFd i = false ∧ r.fdOf i = fd
  events : ∀ fd, r.events fd = unionMask r.handlers (L fd)

theorem Tuned.new (handlers : ι → Handler) :
    Tuned (Reactor.new handlers fun _ => true) fun _ => [] where
  ready := ⟨Lists.new _ _, Registered.new _ _⟩
  granted _ := rfl
  home _ _ hi := absurd hi (by simp)
  events _ := rfl

/-- After an operation on the list of `fd` that leaves the handlers alone, only that descriptor has
to be looked at. -/
theorem Tuned.of_update {r r' : Reactor ι} {L : Nat → List ι} (h : Tuned r L) {fd : Nat} {l : List ι}
    (hready : Ready r' (Function.update L fd l)) (hkept : Kept r r')
    (hhome : ∀ i ∈ l, r.badFd i = false ∧ r.fdOf i = fd)
    (hevents : r'.events = Function.update r.events fd (unionMask r.handlers l)) :
    Tuned r' (Function.update L fd l) := by
  have hbad : ∀ i, r'.badFd i = r.badFd i := fun i => by rw [badFd, badFd, hkept.fd]
  refine ⟨hready, hkept.granted h.granted, fun fd' i hi => ?_, fun fd' => ?_⟩
  · rw [hbad, hkept.fdOf]
    by_cases hfd : fd' = fd
    · subst hfd
      rw [Function.update_self] at hi
      exact hhome i hi
    · rw [Function.update_of_ne hfd] at hi
      exact h.home fd' i hi
  · rw [hevents, hkept.unionMask]
    by_cases hfd : fd' = fd
    · subst hfd
      rw [Function.update_self, Function.update_self]
    · rw [Function.update_of_ne hfd, Function.update_of_ne hfd]
      exact h.events fd'

/-- A mask that is covered adds nothing. -/
theorem or_eq_of_and_eq {m e : EventId} (h : m &&& e = e) : e ||| m = m := by
  ext k hk
  have hbit := congrArg (fun b : EventId => b[k]) h
  simp only [BitVec.getElem_and, BitVec.getElem_or] at hbit ⊢
  cases hm : m[k] <;> cases he : e[k] <;> simp_all

theorem Tuned.addedMask {r : Reactor ι} {L : Nat → List ι} (h : Tuned r L) (i : ι) :
    r.addedMask L i = unionMask r.handlers (i :: L (r.fdOf i)) := by
  rw [Reactor.addedMask]
  by_cases hcov : r.Covered i
  · have hmask := or_eq_of_and_eq hcov
    rw [if_pos hcov, unionMask, ← h.events, hmask]
  · rw [if_neg hcov]

/-! ## What the invariant says of the reactor -/

variable [Fintype ι]

/-- What the reactor and epoll agree on. -/
structure InStep (r : Reactor ι) : Prop where
  events : ∀ fd, r.events fd = r.maskOf (r.nodes fd)
  kernel : ∀ fd, r.kernel fd = if r.maskOf (r.nodes fd) = Events.none then none
    else some (reactor2Epoll (r.maskOf (r.nodes fd)))
  interest : ∀ fd, fd ∈ r.interestFds ↔ (r.kernel fd).isSome = true
  calls : ∀ c ∈ r.calls, c.valid = true
  /-- The lists are chains of handlers for their descriptor, linked in both directions. -/
  chain : ∀ fd, r.links.Chain (.head fd) (r.nodes fd)
  handler : ∀ fd, ∀ n ∈ r.nodes fd, ∃ i, n = .handler i ∧ (r.handlers i).fd = fd
  nodup : ∀ fd, (r.nodes fd).Nodup
  unique : ∀ fd fd' n, n ∈ r.nodes fd → n ∈ r.nodes fd' → fd = fd'
  /-- A handler outside the lists has no links. -/
  free : ∀ i, (∀ fd, .handler i ∉ r.nodes fd) →
    r.links.prev (.handler i) = none ∧ r.links.next (.handler i) = none

theorem Tuned.inStep {r : Reactor ι} {L : Nat → List ι} (h : Tuned r L) : InStep r := by
  have hnodes := h.ready.lists.nodes_eq
  have hmask : ∀ fd, r.maskOf (r.nodes fd) = r.events fd := by
    intro fd
    rw [hnodes, maskOf_map, h.events]
  refine ⟨fun fd => (hmask fd).symm, fun fd => ?_, h.ready.registered.interest,
    h.ready.registered.calls, fun fd => ?_, fun fd n hn => ?_, fun fd => ?_, fun fd fd' n hn hn' => ?_,
    fun i hi => ?_⟩
  · rw [hmask]
    exact h.ready.registered.kernel fd
  · rw [hnodes]
    exact h.ready.lists.chain fd
  · rw [hnodes] at hn
    obtain ⟨i, hi, rfl⟩ := List.mem_map.1 hn
    obtain ⟨hfd, hhome⟩ := h.home fd i hi
    refine ⟨i, rfl, ?_⟩
    simp only [badFd, Bool.or_eq_false_iff, decide_eq_false_iff_not, Int.not_lt] at hfd
    rw [← hhome, fdOf, Int.toNat_of_nonneg hfd.1]
  · rw [hnodes]
    exact nodup_map_handler (h.ready.lists.nodup fd)
  · rw [hnodes] at hn hn'
    obtain ⟨i, hi, rfl⟩ := List.mem_map.1 hn
    exact h.ready.lists.unique hi (mem_map_handler.1 hn')
  · refine h.ready.lists.free fun fd hmem => hi fd ?_
    rw [hnodes]
    exact mem_map_handler.2 hmem

/-! ## One call -/

variable [DecidableEq ι]

theorem Tuned.addHandler {r : Reactor ι} {L : Nat → List ι} (h : Tuned r L) (i : ι) :
    ∃ L', Tuned (r.addHandler (some i)).2 L' := by
  by_cases hi : Addable r i
  · obtain ⟨hready, hkept, hspec⟩ := addHandler_spec h.ready hi
    have hevents := (hspec (Or.inr (Or.inr (h.granted 0)))).2
    rw [h.addedMask] at hevents
    refine ⟨_, h.of_update hready hkept (fun j hj => ?_) hevents⟩
    rcases List.mem_cons.1 hj with rfl | hj
    · exact ⟨hi.fd_ok, rfl⟩
    · exact h.home _ j hj
  · rw [addHandler_of_not hi]
    exact ⟨L, h⟩

omit [Fintype ι] in
/-- Of a handler in no list, anything may change. -/
theorem Tuned.set {r : Reactor ι} {L : Nat → List ι} (h : Tuned r L) {i : ι}
    (hi : ∀ fd, i ∉ L fd) (handler : Handler) :
    Tuned { r with handlers := Function.update r.handlers i handler } L := by
  have hother : ∀ fd, ∀ j ∈ L fd, Function.update r.handlers i handler j = r.handlers j := by
    intro fd j hj
    refine Function.update_of_ne ?_ _ _
    rintro rfl
    exact hi fd hj
  refine ⟨⟨h.ready.lists.of_same rfl rfl, h.ready.registered.of_same rfl rfl rfl rfl⟩, h.granted,
    fun fd j hj => ?_, fun fd => ?_⟩
  · simp only [badFd, fdOf, hother fd j hj]
    exact h.home fd j hj
  · have hmask := unionMask_congr (l := L fd) fun j hj => congrArg Handler.events (hother fd j hj)
    exact (h.events fd).trans hmask.symm

/-- `UpdateHandler` of a linked handler whose mask may have changed. -/
theorem Tuned.update_linked {r : Reactor ι} {L : Nat → List ι} (h : Tuned r L) {i : ι} {fd : Nat}
    (hi : i ∈ L fd) (events : EventId) :
    Tuned (((r.setEvents i events).updateHandler (some i)).2) L := by
  set q := r.setEvents i events with hq
  have hfd : ∀ j, (q.handlers j).fd = (r.handlers j).fd := by
    intro j
    by_cases hj : j = i
    · subst hj
      simp [hq, Reactor.setEvents]
    · simp [hq, Reactor.setEvents, Function.update_of_ne hj]
  have hother : ∀ j, j ≠ i → (q.handlers j).events = (r.handlers j).events :=
    fun j hj => congrArg Handler.events (Function.update_of_ne hj _ _)
  have hqlists : Lists q L := h.ready.lists.of_same rfl rfl
  have hqreg : Registered q := h.ready.registered.of_same rfl rfl rfl rfl
  have hqbad : ∀ j, q.badFd j = r.badFd j := fun j => by rw [badFd, badFd, hfd]
  have hqfd : ∀ j, q.fdOf j = r.fdOf j := fun j => by rw [fdOf, fdOf, hfd]
  have hhome := h.home fd i hi
  have hprev : (q.links.prev (.handler i)).isSome = true := hqlists.isSome_prev_iff.2 ⟨fd, hi⟩
  have hpos : 0 ≤ (q.handlers i).fd := by
    have := hhome.1
    simp only [badFd, Bool.or_eq_false_iff, decide_eq_false_iff_not] at this
    rw [hfd]
    omega
  have hhas : q.hasHandler i = true := by
    rw [hqlists.hasHandler_iff, hqfd, hhome.2]
    exact ⟨hpos, hi⟩
  -- of the three ways of `UpdateHandler` only the first is open
  rcases updateHandler_cases q i with ⟨-, -, -, hrun⟩ | ⟨hadd, -⟩ | ⟨hnot, -⟩
  · obtain ⟨hupd, hok, hevents⟩ := hqreg.update (q.fdOf i)
    have hgrant : (q.updateToDemultiplexer (q.fdOf i)).1 = true := hok.2 (Or.inr (h.granted 0))
    rw [hqfd, hhome.2] at hrun hupd hgrant hevents
    have hstored := hevents hgrant
    rw [hrun]
    refine ⟨⟨hqlists.of_same hupd.links hupd.size, hupd.registered⟩, hupd.granted h.granted,
      fun fd' j hj => ?_, fun fd' => ?_⟩
    · rw [badFd, fdOf, hupd.handlers, hfd]
      exact h.home fd' j hj
    · rw [hstored, hupd.handlers, hqlists.emask_eq]
      by_cases hf : fd' = fd
      · subst hf
        rw [Function.update_self]
      · rw [Function.update_of_ne hf]
        have hcongr : unionMask q.handlers (L fd') = unionMask r.handlers (L fd') := by
          refine unionMask_congr fun j hj => hother j ?_
          rintro rfl
          exact hf (h.ready.lists.unique hj hi)
        rw [hcongr]
        exact h.events fd'
  · have := hadd.alone
    rw [this] at hprev
    exact absurd hprev (by simp)
  · rw [hqbad, hhome.1, hhas] at hnot
    exact absurd hnot (by simp)

theorem Tuned.updateHandler {r : Reactor ι} {L : Nat → List ι} (h : Tuned r L) (i : ι) :
    ∃ L', Tuned (r.updateHandler (some i)).2 L' := by
  rcases updateHandler_cases r i with ⟨-, hhas, -⟩ | ⟨-, hrun⟩ | ⟨-, hrun⟩
  · -- the mask is set to what it is
    have hsame : r.setEvents i (r.handlers i).events = r := by
      rw [Reactor.setEvents, Function.update_eq_self]
    have hlinked := h.update_linked (h.ready.lists.hasHandler_iff.1 hhas).2 (r.handlers i).events
    rw [hsame] at hlinked
    exact ⟨L, hlinked⟩
  · rw [hrun]
    exact h.addHandler i
  · rw [hrun]
    exact ⟨L, h⟩

theorem Tuned.removeHandler {r : Reactor ι} {L : Nat → List ι} (h : Tuned r L) (i : ι) :
    ∃ L', Tuned (r.removeHandler (some i)).2 L' := by
  by_cases hi : r.badFd i = true ∨ i ∉ L (r.fdOf i)
  · obtain ⟨hready, hkept, -, hevents⟩ := removeHandler_of_not h.ready hi
    have hL : Function.update L 0 (L 0) = L := Function.update_eq_self 0 L
    rw [← hL] at hready
    refine ⟨_, h.of_update hready hkept (h.home 0) ?_⟩
    rw [hevents, ← h.events, Function.update_eq_self]
  · obtain ⟨hfd, hi⟩ := not_or.1 hi
    obtain ⟨hready, hkept, hspec⟩ :=
      removeHandler_spec h.ready (by simpa using hfd) (not_not.1 hi)
    exact ⟨_, h.of_update hready hkept (fun j hj => h.home _ j (List.mem_of_mem_erase hj))
      (hspec (Or.inr (h.granted 0))).2⟩

theorem Tuned.doClean {r : Reactor ι} {L : Nat → List ι} (h : Tuned r L) (fd : Nat) :
    Tuned (r.doClean fd).2 (Function.update L fd []) := by
  obtain ⟨hready, hkept, -, hevents⟩ := doClean_spec h.ready fd
  refine h.of_update hready hkept (fun i hi => absurd hi (by simp)) ?_
  rw [hevents (Or.inr (Or.inr (h.granted 0)))]
  by_cases hnil : L fd = []
  · rw [if_pos hnil, ← hnil, ← h.events, Function.update_eq_self]
  · rw [if_neg hnil]
    rfl

theorem Tuned.cleanLoop {r : Reactor ι} {L : Nat → List ι} (h : Tuned r L) (fds : List Nat)
    (res : ErrCode) : ∃ L', Tuned (r.cleanLoop fds res).2 L' := by
  induction fds generalizing r L res with
  | nil => exact ⟨L, h⟩
  | cons fd fds ih => exact ih (h.doClean fd) _

/-! ## Runs -/

/-- A linked handler is not destroyed, keeps its descriptor, and changes its mask only together
with `UpdateHandler`. -/
def Op.Careful (r : Reactor ι) : Op ι → Prop
  | .destroy i | .setFd i _ | .setEvents i _ => r.links.prev (.handler i) = none
  | .addHandler _ | .updateHandler _ | .removeHandler _ | .clean _ | .cleanUp | .change _ _ => True

theorem Tuned.step {r : Reactor ι} {L : Nat → List ι} (h : Tuned r L) (op : Op ι)
    (hop : op.Careful r) : ∃ L', Tuned (r.step op) L' := by
  cases op with
  | addHandler target =>
      cases target with
      | none => exact ⟨L, h⟩
      | some i => exact h.addHandler i
  | updateHandler target =>
      cases target with
      | none => exact ⟨L, h⟩
      | some i => exact h.updateHandler i
  | removeHandler target =>
      cases target with
      | none => exact ⟨L, h⟩
      | some i => exact h.removeHandler i
  | clean fd =>
      by_cases hfd : fd < r.size
      · rw [Reactor.step, if_pos hfd]
        exact ⟨_, h.doClean fd⟩
      · rw [Reactor.step, if_neg hfd]
        exact ⟨L, h⟩
  | cleanUp => exact h.cleanLoop _ _
  | destroy i =>
      have hfree := h.ready.lists.free (h.ready.lists.notMem_of_alone hop)
      rw [Reactor.step, destroy, unlink_free hfree.1 hfree.2]
      exact ⟨L, h⟩
  | setFd i fd => exact ⟨L, h.set (h.ready.lists.notMem_of_alone hop) _⟩
  | setEvents i events => exact ⟨L, h.set (h.ready.lists.notMem_of_alone hop) _⟩
  | change i events =>
      by_cases hi : ∃ fd, i ∈ L fd
      · obtain ⟨fd, hi⟩ := hi
        exact ⟨L, h.update_linked hi events⟩
      · exact (h.set (not_exists.1 hi) _).updateHandler i

/-- **Masks and registrations stay in step**, as long as epoll agrees. -/
theorem masks_in_step (handlers : ι → Handler) (ops : List (Op ι))
    (hops : Along (fun r op => op.Careful r) Reactor.step
      (Reactor.new handlers fun _ => true) ops) :
    InStep ((Reactor.new handlers fun _ => true).run ops) := by
  obtain ⟨L, h⟩ := hops.invariant (I := fun r => ∃ L, Tuned r L)
    (fun r op hop hr => hr.elim fun L h => h.step op hop) ⟨_, Tuned.new handlers⟩
  exact h.inStep

/-- A handler changes its mask while a second one is linked for the same descriptor. -/
theorem masks_in_step_change :
    InStep ((Reactor.new (fun b : Bool => ⟨3, if b then Events.read else Events.write, false⟩)
      fun _ => true).run [.addHandler (some true), .addHandler (some false),
        .change true Events.none, .removeHandler (some false), .setFd false 4]) :=
  masks_in_step _ [.addHandler (some true), .addHandler (some false),
      .change true Events.none, .removeHandler (some false), .setFd false 4]
    ⟨trivial, trivial, trivial, trivial, by show _ = none; decide +kernel, trivial⟩

end CUtils.IOEvent
