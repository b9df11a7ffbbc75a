import CUtils.IOEvent.Steps
import CUtils.Lib.StateRun

/-!
# Calls that fail

`AddHandler` and `RemoveHandler` change the lists before they ask epoll, and do not change them back
when epoll refuses; a `RemoveHandler` that does not find its handler enables it. Here stands exactly
which calls leave everything as it was when they fail. A handler that was linked all the same is
"already started" at the next try, and one that was unlinked is not found.
-/

namespace CUtils.IOEvent

open LinkedList Reactor

variable {ι : Type} [DecidableEq ι] [Fintype ι]

/-! ## Every run -/

theorem Ready.addHandler {r : Reactor ι} {L : Nat → List ι} (h : Ready r L) (i : ι) :
    ∃ L', Ready (r.addHandler (some i)).2 L' := by
  by_cases hi : Addable r i
  · exact ⟨_, (addHandler_spec h hi).1⟩
  · rw [addHandler_of_not hi]
    exact ⟨L, h⟩

theorem Ready.updateHandler {r : Reactor ι} {L : Nat → List ι} (h : Ready r L) (i : ι) :
    ∃ L', Ready (r.updateHandler (some i)).2 L' := by
  rcases updateHandler_cases r i with ⟨-, -, -, hrun⟩ | ⟨-, hrun⟩ | ⟨-, hrun⟩
  · obtain ⟨hupd, -⟩ := h.registered.update (r.fdOf i)
    rw [hrun]
    exact ⟨L, h.lists.of_same hupd.links hupd.size, hupd.registered⟩
  · rw [hrun]
    exact h.addHandler i
  · rw [hrun]
    exact ⟨L, h⟩

theorem Ready.removeHandler {r : Reactor ι} {L : Nat → List ι} (h : Ready r L) (i : ι) :
    ∃ L', Ready (r.removeHandler (some i)).2 L' := by
  by_cases hi : r.badFd i = true ∨ i ∉ L (r.fdOf i)
  · exact ⟨L, (removeHandler_of_not h hi).1⟩
  · obtain ⟨hfd, hi⟩ := not_or.1 hi
    exact ⟨_, (removeHandler_spec h (by simpa using hfd) (not_not.1 hi)).1⟩

theorem Ready.cleanLoop {r : Reactor ι} {L : Nat → List ι} (h : Ready r L) (fds : List Nat)
    (res : ErrCode) : ∃ L', Ready (r.cleanLoop fds res).2 L' := by
  induction fds generalizing r L res with
  | nil => exact ⟨L, h⟩
  | cons fd fds ih => exact ih (doClean_spec h fd).1 _

omit [Fintype ι] in
theorem Ready.destroy {r : Reactor ι} {L : Nat → List ι} (h : Ready r L) (i : ι) :
    ∃ L', Ready (r.destroy i) L' := by
  have hreg : Registered (r.destroy i) := h.registered.of_same rfl rfl rfl rfl
  by_cases hi : ∃ fd, i ∈ L fd
  · obtain ⟨fd, hi⟩ := hi
    exact ⟨_, h.lists.unlink hi, hreg⟩
  · have hfree := h.lists.free (not_exists.1 hi)
    rw [Reactor.destroy, unlink_free hfree.1 hfree.2]
    exact ⟨L, h⟩

/-- **What is relied on holds in every state**, whatever epoll answers and whatever is done to the
handlers. -/
theorem Ready.step {r : Reactor ι} {L : Nat → List ι} (h : Ready r L) (op : Op ι) :
    ∃ L', Ready (r.step op) L' := by
  cases op with
  | addHandler target =>
      cases target with
      | none => exact ⟨L, h⟩
      | some i => exact h.addHandler i
  | updateHandler target =>
      cases target with
      | none => exact ⟨L, h⟩
      | some i => exact h.updateHandler i
  | removeHandler target =>
      cases target with
      | none => exact ⟨L, h⟩
      | some i => exact h.removeHandler i
  | clean fd =>
      by_cases hfd : fd < r.size
      · rw [Reactor.step, if_pos hfd]
        exact ⟨_, (doClean_spec h fd).1⟩
      · rw [Reactor.step, if_neg hfd]
        exact ⟨L, h⟩
  | cleanUp => exact h.cleanLoop _ _
  | destroy i => exact h.destroy i
  | setFd i fd => exact ⟨L, h.lists.of_same rfl rfl, h.registered.of_same rfl rfl rfl rfl⟩
  | setEvents i events => exact ⟨L, h.lists.of_same rfl rfl, h.registered.of_same rfl rfl rfl rfl⟩
  | change i events =>
      have hset : Ready (r.setEvents i events) L :=
        ⟨h.lists.of_same rfl rfl, h.registered.of_same rfl rfl rfl rfl⟩
      exact hset.updateHandler i

theorem ready_run (handlers : ι → Handler) (answers : Nat → Bool) (ops : List (Op ι)) :
    ∃ L, Ready ((Reactor.new handlers answers).run ops) L := by
  have hnew : ∃ L, Ready (Reactor.new handlers answers) L :=
    ⟨_, Lists.new _ _, Registered.new _ _⟩
  unfold Reactor.run
  generalize Reactor.new handlers answers = r at hnew
  induction ops generalizing r with
  | nil => exact hnew
  | cons op ops ih => exact ih _ (hnew.elim fun L h => h.step op)

/-! ## Failing -/

/-- The lists, the handlers and what is known of epoll are as before. -/
structure Unchanged (r r' : Reactor ι) : Prop where
  links : r'.links = r.links
  handlers : r'.handlers = r.handlers
  events : r'.events = r.events
  interestFds : r'.interestFds = r.interestFds
  count : r'.count = r.count

/-- A call that fails changes nothing, and the next try is answered as this one would have been. -/
def FailsClean (call : Reactor ι → ErrCode × Reactor ι) (r : Reactor ι) : Prop :=
  (call r).1 ≠ .ok → Unchanged r (call r).2 ∧ ∀ answers,
    (call { (call r).2 with answers := answers }).1 = (call { r with answers := answers }).1

omit [DecidableEq ι] [Fintype ι] in
theorem FailsClean.of_same {call : Reactor ι → ErrCode × Reactor ι} {r : Reactor ι}
    (h : (call r).1 ≠ .ok → (call r).2 = r) : FailsClean call r := by
  intro hfail
  rw [h hfail]
  exact ⟨⟨rfl, rfl, rfl, rfl, rfl⟩, fun _ => rfl⟩

/-- A union of masks covers each of them. -/
theorem and_eq_of_or {e m : EventId} : (e ||| m) &&& e = e := by
  ext k hk
  simp only [BitVec.getElem_and, BitVec.getElem_or]
  cases e[k] <;> simp

theorem addHandler_failsClean_iff {r : Reactor ι} {L : Nat → List ι} (h : Ready r L) (i : ι) :
    FailsClean (fun r => r.addHandler (some i)) r ↔
      (Addable r i → r.Covered i ∨ r.answers 0 = true) := by
  by_cases hi : Addable r i
  · have hlists := h.lists.insertNodeFront (h.lists.notMem_of_alone hi.alone) (r.fdOf i)
    have hreg : Registered (r.insertNodeFront (r.fdOf i) i) := h.registered.of_same rfl rfl rfl rfl
    by_cases hcov : r.Covered i
    · refine ⟨fun _ _ => Or.inl hcov, fun _ => FailsClean.of_same fun hfail => ?_⟩
      rw [addHandler_covered hi hcov] at hfail
      exact absurd rfl hfail
    · obtain ⟨hupd, hok, -⟩ := hreg.update (r.fdOf i)
      -- the union with the events of the handler is not the stored mask, so epoll is asked
      have hasked : (r.insertNodeFront (r.fdOf i) i).emask (r.fdOf i) ≠ r.events (r.fdOf i) := by
        rw [hlists.emask_eq, Function.update_self, unionMask]
        intro heq
        refine hcov ?_
        rw [Covered, ← heq]
        exact and_eq_of_or
      have hrun := addHandler_asked hi hcov
      set u := (r.insertNodeFront (r.fdOf i) i).updateToDemultiplexer (r.fdOf i)
      have hgrant : u.1 = true ↔ r.answers 0 = true := by
        rw [hok]
        exact or_iff_right hasked
      by_cases hans : r.answers 0 = true
      · refine ⟨fun _ _ => Or.inr hans, fun _ => FailsClean.of_same fun hfail => ?_⟩
        rw [hrun, if_pos (hgrant.2 hans)] at hfail
        exact absurd rfl hfail
      · have hno : ¬ u.1 = true := fun hyes => hans (hgrant.1 hyes)
        refine ⟨fun hclean => ?_, fun hcond => absurd (hcond hi) (not_or.2 ⟨hcov, hans⟩)⟩
        have hfail : (r.addHandler (some i)).1 ≠ .ok := by
          rw [hrun, if_neg hno]
          simp
        have hlinks : (r.addHandler (some i)).2.links = r.links := (hclean hfail).1.links
        rw [hrun, if_neg hno, hupd.links] at hlinks
        have hprev : ((r.links.insertFront (.head (r.fdOf i)) (.handler i)).prev
            (.handler i)).isSome = true := by
          refine ((hlists.chain (r.fdOf i)).prev_isSome ?_)
          rw [Function.update_self]
          simp
        have hsame : (r.links.insertFront (.head (r.fdOf i)) (.handler i)).prev (.handler i) =
            r.links.prev (.handler i) := congrFun (congrArg Links.prev hlinks) _
        rw [hsame, hi.alone] at hprev
        exact absurd hprev (by simp)
  · refine ⟨fun _ hadd => absurd hadd hi, fun _ => FailsClean.of_same fun _ => ?_⟩
    exact addHandler_of_not hi

/-- A handler that is found is removed if what is left is the stored mask or epoll agrees; one that
is not found has to be enabled. -/
def Reactor.Removes (r : Reactor ι) (i : ι) : Prop :=
  if r.hasHandler i = true then
    r.Granted (r.fdOf i) (r.maskOf ((r.nodes (r.fdOf i)).erase (.handler i)))
  else (r.handlers i).enabled = true

theorem removeHandler_failsClean_iff {r : Reactor ι} {L : Nat → List ι} (h : Ready r L) (i : ι) :
    FailsClean (fun r => r.removeHandler (some i)) r ↔ (r.badFd i = false → r.Removes i) := by
  cases hfd : r.badFd i with
  | true =>
      refine ⟨fun _ hno => absurd hno (by simp), fun _ => FailsClean.of_same fun _ => ?_⟩
      show (r.removeHandler (some i)).2 = r
      rw [Reactor.removeHandler, if_pos hfd]
  | false =>
      cases hhas : r.hasHandler i with
      | false =>
          have hrun := removeHandler_not_found hfd hhas
          rw [Removes, hhas, if_neg (by simp)]
          constructor
          · intro hclean _
            have hfail : (r.removeHandler (some i)).1 ≠ .ok := by
              rw [hrun]
              simp
            have hsame : (r.removeHandler (some i)).2.handlers = r.handlers :=
              (hclean hfail).1.handlers
            rw [hrun] at hsame
            have hi := congrArg Handler.enabled (congrFun hsame i)
            simpa [setEnabled] using hi.symm
          · intro henabled
            refine FailsClean.of_same fun _ => ?_
            show (r.removeHandler (some i)).2 = r
            have hself := setEnabled_self r i
            rw [henabled rfl] at hself
            rw [hrun]
            exact hself
      | true =>
          have hi := (h.lists.hasHandler_iff.1 hhas).2
          have hmem : Node.handler i ∈ (L (r.fdOf i)).map Node.handler := mem_map_handler.2 hi
          have hprev := (h.lists.chain (r.fdOf i)).prev_isSome hmem
          obtain ⟨-, -, hreg, hmask⟩ := h.removed hi
          obtain ⟨hupd, hok, -⟩ := hreg.update (r.fdOf i)
          rw [hmask, ← h.lists.maskOf_erase] at hok
          have hok : _ ↔ r.Granted _ _ := hok
          have hrun := removeHandler_found hfd hhas
          set u := (r.removed i).updateToDemultiplexer (r.fdOf i)
          rw [Removes, hhas, if_pos rfl, ← hok]
          constructor
          · intro hclean _
            by_contra hno
            have hfail : (r.removeHandler (some i)).1 ≠ .ok := by
              rw [hrun, if_neg hno]
              simp
            have hlinks : (r.removeHandler (some i)).2.links = r.links := (hclean hfail).1.links
            rw [hrun, if_neg hno] at hlinks
            have hunlinked : r.links.unlink (.handler i) = r.links := hupd.links.symm.trans hlinks
            rw [← hunlinked, Links.unlink_prev, if_pos rfl] at hprev
            exact absurd hprev (by simp)
          · intro hyes
            refine FailsClean.of_same fun hfail => ?_
            rw [hrun, if_pos (hyes rfl)] at hfail
            exact absurd rfl hfail

/-- **Which failed calls change nothing**, in every state that a run gets into: an `AddHandler` whose
events are covered or granted if its handler passes the tests, and a `RemoveHandler` that is granted
if it finds its handler, or finds none and the handler is enabled. -/
theorem failed_unchanged_iff (handlers : ι → Handler) (answers : Nat → Bool) (ops : List (Op ι))
    (i : ι) :
    let r := (Reactor.new handlers answers).run ops
    (FailsClean (fun r => r.addHandler (some i)) r ↔
        (Addable r i → r.Covered i ∨ r.answers 0 = true)) ∧
      (FailsClean (fun r => r.removeHandler (some i)) r ↔ (r.badFd i = false → r.Removes i)) := by
  intro r
  obtain ⟨L, h⟩ := ready_run handlers answers ops
  exact ⟨addHandler_failsClean_iff h i, removeHandler_failsClean_iff h i⟩

/-- **A refused handler that is linked.** epoll refuses the descriptor of the handler; at the second
try it is already started. -/
theorem refused_handler_linked :
    let r := Reactor.new (fun _ : Unit => ⟨3, Events.read, false⟩) fun n => decide (n ≠ 0)
    (r.addHandler (some ())).1 = .failed ∧
      ((r.addHandler (some ())).2.addHandler (some ())).1 = .alreadyStarted ∧
      ¬ FailsClean (fun r => r.addHandler (some ())) r := by
  intro r
  refine ⟨by decide +kernel, by decide +kernel, fun hclean => ?_⟩
  have hfail : (r.addHandler (some ())).1 ≠ .ok := by decide +kernel
  have hlinks : (r.addHandler (some ())).2.links = r.links := (hclean hfail).1.links
  have hprev : (r.addHandler (some ())).2.links.prev (.handler ()) = some (.head 3) := by
    decide +kernel
  rw [hlinks] at hprev
  exact absurd hprev (by decide +kernel)

end CUtils.IOEvent
