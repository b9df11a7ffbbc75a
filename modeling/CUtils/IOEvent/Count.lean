import CUtils.IOEvent.Steps
import CUtils.Lib.StateRun
import Mathlib.Algebra.BigOperators.Group.Finset.Piecewise

/-!
# Counting handlers

`count_` is meant to be the number of linked handlers: `Run(-1)` polls exactly when it is not
zero. `AddHandler` counts only after epoll has agreed and leaves the handler linked otherwise,
`RemoveHandler` discounts only after epoll has agreed and has unlinked the handler before;
`DoClean` and the destructor unlink and do not count at all. `Op.Counts` names the calls that are
none of this; along runs of such calls the count is right.
-/

namespace CUtils.IOEvent

open LinkedList Reactor StateRun

variable {ι : Type} [Fintype ι]

/-! ## The number of linked handlers -/

theorem Lists.linked_eq {r : Reactor ι} {L : Nat → List ι} (h : Lists r L) {n : Nat}
    (hn : r.size ≤ n) : r.linked = ∑ fd ∈ Finset.range n, (L fd).length := by
  have hsize : r.linked = ∑ fd ∈ Finset.range r.size, (L fd).length := by
    rw [linked]
    have hlen : (fun fd => (r.nodes fd).length) = fun fd => (L fd).length := by
      funext fd
      rw [h.nodes_eq, List.length_map]
    rw [hlen]
    rfl
  rw [hsize]
  refine Finset.sum_subset (Finset.range_mono hn) fun fd _ hfd => ?_
  rw [h.beyond fd (by simpa using hfd), List.length_nil]

/-- One list changes, and the number of linked handlers with it. -/
theorem Lists.linked_update {r r' : Reactor ι} {L : Nat → List ι} {fd : Nat} {l : List ι}
    (h : Lists r L) (h' : Lists r' (Function.update L fd l)) :
    r'.linked + (L fd).length = r.linked + l.length := by
  set n := max (max r.size r'.size) (fd + 1) with hn
  have hmem : fd ∈ Finset.range n := Finset.mem_range.2 (by omega)
  have hlen : (fun fd' => (Function.update L fd l fd').length) =
      Function.update (fun fd' => (L fd').length) fd l.length := by
    funext fd'
    by_cases hfd : fd' = fd
    · subst hfd
      rw [Function.update_self, Function.update_self]
    · rw [Function.update_of_ne hfd, Function.update_of_ne hfd]
  have hsum := Finset.add_sum_erase (Finset.range n) (fun fd' => (L fd').length) hmem
  rw [h.linked_eq (n := n) (by omega), h'.linked_eq (n := n) (by omega), hlen,
    Finset.sum_update_of_mem hmem, ← Finset.erase_eq]
  omega

/-- The invariant. -/
def Counted (r : Reactor ι) : Prop := ∃ L, Ready r L ∧ r.count.toNat = r.linked

theorem Counted.new (handlers : ι → Handler) (answers : Nat → Bool) :
    Counted (Reactor.new handlers answers) := by
  refine ⟨fun _ => [], ⟨Lists.new _ _, Registered.new _ _⟩, ?_⟩
  rw [(Lists.new handlers answers).linked_eq le_rfl]
  simp [Reactor.new]

/-- What changes neither the lists nor the count. -/
theorem Counted.of_same {r r' : Reactor ι} {L : Nat → List ι} (hcount : r.count.toNat = r.linked)
    (h : Ready r L) (h' : Ready r' L) (hsame : r'.count = r.count) : Counted r' := by
  refine ⟨L, h', ?_⟩
  have hL : Function.update L 0 (L 0) = L := Function.update_eq_self 0 L
  have hlists : Lists r' (Function.update L 0 (L 0)) := by rw [hL]; exact h'.lists
  have hlinked := h.lists.linked_update hlists
  rw [hsame, hcount]
  omega

/-! ## Calls that count -/

variable [DecidableEq ι]

/-- The calls after which the count is right if it was right before. -/
def Op.Counts (r : Reactor ι) : Op ι → Prop
  | .addHandler target | .updateHandler target =>
      ∀ i ∈ target, Addable r i → r.Admits i ∧ r.linked + 1 < 2 ^ 32
  | .removeHandler target => ∀ i ∈ target, r.badFd i = false → r.hasHandler i = true →
      r.Granted (r.fdOf i) (r.maskOf ((r.nodes (r.fdOf i)).erase (.handler i)))
  | .clean fd => fd < r.size → r.nodes fd = []
  | .cleanUp => ∀ fd < r.size, r.nodes fd = []
  | .destroy i => r.links.prev (.handler i) = none
  | .setFd _ _ | .setEvents _ _ => True
  | .change i events => Addable (r.setEvents i events) i →
      (r.setEvents i events).Admits i ∧ r.linked + 1 < 2 ^ 32

theorem Counted.addHandler {r : Reactor ι} (h : Counted r) {i : ι}
    (hcounts : Addable r i → r.Admits i ∧ r.linked + 1 < 2 ^ 32) :
    Counted (r.addHandler (some i)).2 := by
  by_cases hi : Addable r i
  · obtain ⟨L, hready, hcount⟩ := h
    obtain ⟨hadmits, hroom⟩ := hcounts hi
    obtain ⟨hready', -, hspec⟩ := addHandler_spec hready hi
    have hlinked := hready.lists.linked_update hready'.lists
    rw [List.length_cons] at hlinked
    refine ⟨_, hready', ?_⟩
    rw [(hspec hadmits).1, BitVec.toNat_add, hcount]
    show (r.linked + 1) % 2 ^ 32 = _
    rw [Nat.mod_eq_of_lt hroom]
    omega
  · rw [addHandler_of_not hi]
    exact h

theorem Counted.updateHandler {r : Reactor ι} (h : Counted r) {i : ι}
    (hcounts : Addable r i → r.Admits i ∧ r.linked + 1 < 2 ^ 32) :
    Counted (r.updateHandler (some i)).2 := by
  rcases updateHandler_cases r i with ⟨-, -, -, hrun⟩ | ⟨-, hrun⟩ | ⟨-, hrun⟩
  · obtain ⟨L, hready, hcount⟩ := h
    obtain ⟨hupd, -⟩ := hready.registered.update (r.fdOf i)
    rw [hrun]
    exact Counted.of_same hcount hready
      ⟨hready.lists.of_same hupd.links hupd.size, hupd.registered⟩ hupd.count
  · rw [hrun]
    exact h.addHandler hcounts
  · rw [hrun]
    exact h

theorem Counted.removeHandler {r : Reactor ι} (h : Counted r) {i : ι}
    (hcounts : r.badFd i = false → r.hasHandler i = true →
      r.Granted (r.fdOf i) (r.maskOf ((r.nodes (r.fdOf i)).erase (.handler i)))) :
    Counted (r.removeHandler (some i)).2 := by
  obtain ⟨L, hready, hcount⟩ := h
  by_cases hi : r.badFd i = true ∨ i ∉ L (r.fdOf i)
  · obtain ⟨hready', -, hsame, -⟩ := removeHandler_of_not hready hi
    exact Counted.of_same hcount hready hready' hsame
  · obtain ⟨hfd, hi⟩ := not_or.1 hi
    rw [not_not] at hi
    rw [Bool.not_eq_true] at hfd
    have hpos : 0 ≤ (r.handlers i).fd := by
      simp only [badFd, Bool.or_eq_false_iff, decide_eq_false_iff_not] at hfd
      omega
    have hgrant := hcounts hfd (hready.lists.hasHandler_iff.2 ⟨hpos, hi⟩)
    rw [hready.lists.maskOf_erase] at hgrant
    obtain ⟨hready', -, hspec⟩ := removeHandler_spec hready hfd hi
    have hlinked := hready.lists.linked_update hready'.lists
    have hlen := List.length_erase_of_mem hi
    have hmem := List.length_pos_of_mem hi
    have hone : 1 ≤ r.linked := by omega
    refine ⟨_, hready', ?_⟩
    rw [(hspec hgrant).1, BitVec.toNat_sub]
    have hlt := r.count.isLt
    show (2 ^ 32 - 1 + r.count.toNat) % 2 ^ 32 = _
    omega

theorem cleanLoop_of_empty {r : Reactor ι} {L : Nat → List ι} (h : Lists r L) {fds : List Nat}
    (hempty : ∀ fd ∈ fds, L fd = []) (res : ErrCode) : r.cleanLoop fds res = (res, r) := by
  induction fds with
  | nil => rfl
  | cons fd fds ih =>
      rw [cleanLoop, doClean_of_empty h (hempty fd (by simp))]
      exact ih fun fd' hfd' => hempty fd' (by simp [hfd'])

theorem Counted.step {r : Reactor ι} (op : Op ι) (hcounts : op.Counts r) (h : Counted r) :
    Counted (r.step op) := by
  cases op with
  | addHandler target =>
      cases target with
      | none => exact h
      | some i => exact h.addHandler (hcounts i rfl)
  | updateHandler target =>
      cases target with
      | none => exact h
      | some i => exact h.updateHandler (hcounts i rfl)
  | removeHandler target =>
      cases target with
      | none => exact h
      | some i => exact h.removeHandler (hcounts i rfl)
  | clean fd =>
      by_cases hfd : fd < r.size
      · obtain ⟨L, hready, hcount⟩ := id h
        have hnil : L fd = [] := by
          have := hcounts hfd
          rwa [hready.lists.nodes_eq, List.map_eq_nil_iff] at this
        rw [Reactor.step, if_pos hfd, clean, doClean_of_empty hready.lists hnil]
        exact h
      · rw [Reactor.step, if_neg hfd]
        exact h
  | cleanUp =>
      obtain ⟨L, hready, hcount⟩ := id h
      have hnil : ∀ fd ∈ List.range r.size, L fd = [] := by
        intro fd hfd
        have := hcounts fd (List.mem_range.1 hfd)
        rwa [hready.lists.nodes_eq, List.map_eq_nil_iff] at this
      rw [Reactor.step, cleanUp, cleanLoop_of_empty hready.lists hnil]
      exact h
  | destroy i =>
      obtain ⟨L, hready, hcount⟩ := id h
      have hfree := hready.lists.free (hready.lists.notMem_of_alone hcounts)
      rw [Reactor.step, destroy, unlink_free hfree.1 hfree.2]
      exact h
  | setFd i fd =>
      obtain ⟨L, hready, hcount⟩ := h
      exact Counted.of_same hcount hready
        ⟨hready.lists.of_same rfl rfl, hready.registered.of_same rfl rfl rfl rfl⟩ rfl
  | setEvents i events =>
      obtain ⟨L, hready, hcount⟩ := h
      exact Counted.of_same hcount hready
        ⟨hready.lists.of_same rfl rfl, hready.registered.of_same rfl rfl rfl rfl⟩ rfl
  | change i events =>
      obtain ⟨L, hready, hcount⟩ := h
      have hset : Counted (r.setEvents i events) := Counted.of_same hcount hready
        ⟨hready.lists.of_same rfl rfl, hready.registered.of_same rfl rfl rfl rfl⟩ rfl
      exact hset.updateHandler hcounts

/-- **The count along a run.** As long as epoll agrees to what `AddHandler` and `RemoveHandler`
ask for, only empty lists are cleaned and only unlinked handlers are destroyed, the count is the
number of linked handlers, and `Run(-1)` polls exactly when there is one. -/
theorem count_eq_linked (handlers : ι → Handler) (answers : Nat → Bool) (ops : List (Op ι))
    (hops : Along (fun r op => op.Counts r) Reactor.step (Reactor.new handlers answers) ops) :
    ((Reactor.new handlers answers).run ops).count.toNat =
        ((Reactor.new handlers answers).run ops).linked ∧
      (((Reactor.new handlers answers).run ops).polls (-1) = true ↔
        0 < ((Reactor.new handlers answers).run ops).linked) := by
  obtain ⟨L, -, hcount⟩ := hops.invariant (I := Counted)
    (fun r op hc hr => hr.step op hc) (Counted.new handlers answers)
  change ((Reactor.new handlers answers).run ops).count.toNat =
    ((Reactor.new handlers answers).run ops).linked at hcount
  refine ⟨hcount, ?_⟩
  rw [polls, if_pos rfl, decide_eq_true_iff, ← hcount]
  constructor
  · intro hne
    refine Nat.pos_of_ne_zero fun h0 => hne ?_
    exact BitVec.eq_of_toNat_eq h0
  · rintro hpos heq
    rw [heq] at hpos
    exact absurd hpos (by simp)

/-- Two handlers for one descriptor, the first of which is removed again. -/
theorem count_eq_linked_two :
    ((Reactor.new (fun _ : Bool => ⟨3, Events.read, false⟩) fun _ => true).run
      [.addHandler (some true), .addHandler (some false), .removeHandler (some true)]).count.toNat =
        ((Reactor.new (fun _ : Bool => ⟨3, Events.read, false⟩) fun _ => true).run
          [.addHandler (some true), .addHandler (some false), .removeHandler (some true)]).linked :=
  (count_eq_linked (fun _ : Bool => ⟨3, Events.read, false⟩) (fun _ => true)
    [.addHandler (some true), .addHandler (some false), .removeHandler (some true)]
    ⟨fun _ _ _ => ⟨Or.inr (Or.inr rfl), by decide +kernel⟩,
      fun _ _ _ => ⟨Or.inr (Or.inr rfl), by decide +kernel⟩,
      fun _ _ _ _ => Or.inr (by decide +kernel), trivial⟩).1

/-- A cleaned descriptor leaves its handler in the count, and a refused one leaves its handler
linked without being counted. -/
theorem count_ne_linked :
    (let r := (Reactor.new (fun _ : Unit => ⟨3, Events.read, false⟩) fun _ => true).run
       [.addHandler (some ()), .clean 3]
     r.count.toNat = 1 ∧ r.linked = 0 ∧ r.polls (-1) = true) ∧
    (let r := (Reactor.new (fun _ : Unit => ⟨3, Events.read, false⟩) fun _ => false).run
       [.addHandler (some ())]
     r.count.toNat = 0 ∧ r.linked = 1 ∧ r.polls (-1) = false) := by
  decide +kernel

end CUtils.IOEvent
