import CUtils.IOEvent.Registration

/-!
# The operations of the reactor, one by one

For each operation: what it does to the lists, to the registration, to the count and to the
handlers, in one statement. `Ready r L` is what every operation relies on and keeps.
-/

namespace CUtils.IOEvent

open LinkedList Reactor

variable {ι : Type}

structure Ready (r : Reactor ι) (L : Nat → List ι) : Prop where
  lists : Lists r L
  registered : Registered r

/-- What an operation may do to the handlers themselves is to enable and to disable them; and an
epoll that agrees to everything goes on agreeing. -/
structure Kept (r r' : Reactor ι) : Prop where
  fd : ∀ j, (r'.handlers j).fd = (r.handlers j).fd
  events : ∀ j, (r'.handlers j).events = (r.handlers j).events
  granted : (∀ n, r.answers n = true) → ∀ n, r'.answers n = true

theorem Kept.refl (r : Reactor ι) : Kept r r := ⟨fun _ => rfl, fun _ => rfl, id⟩

theorem Kept.trans {r s t : Reactor ι} (h : Kept r s) (h' : Kept s t) : Kept r t :=
  ⟨fun j => (h'.fd j).trans (h.fd j), fun j => (h'.events j).trans (h.events j),
    fun hall => h'.granted (h.granted hall)⟩

theorem Kept.fdOf {r r' : Reactor ι} (h : Kept r r') (i : ι) : r'.fdOf i = r.fdOf i := by
  rw [Reactor.fdOf, Reactor.fdOf, h.fd i]

/-! ## Masks -/

/-- The union of the masks of some handlers. -/
def unionMask (handlers : ι → Handler) : List ι → EventId
  | [] => Events.none
  | i :: is => (handlers i).events ||| unionMask handlers is

theorem foldl_nodeEvents (r : Reactor ι) (l : List ι) (m : EventId) :
    (l.map Node.handler).foldl (fun m n => m ||| r.nodeEvents n) m = m ||| unionMask r.handlers l := by
  induction l generalizing m with
  | nil => simp [unionMask, Events.none]
  | cons i l ih =>
      rw [List.map_cons, List.foldl_cons, ih, unionMask, BitVec.or_assoc]
      rfl

theorem unionMask_congr {h h' : ι → Handler} {l : List ι}
    (heq : ∀ i ∈ l, (h' i).events = (h i).events) : unionMask h' l = unionMask h l := by
  induction l with
  | nil => rfl
  | cons i l ih =>
      rw [unionMask, unionMask, heq i (by simp), ih fun j hj => heq j (by simp [hj])]

theorem Kept.unionMask {r r' : Reactor ι} (h : Kept r r') (l : List ι) :
    unionMask r'.handlers l = unionMask r.handlers l :=
  unionMask_congr fun i _ => h.events i

/-- The union of the masks of some nodes. -/
def Reactor.maskOf (r : Reactor ι) (l : List (Node ι)) : EventId :=
  l.foldl (fun m n => m ||| r.nodeEvents n) 0

theorem maskOf_map (r : Reactor ι) (l : List ι) :
    r.maskOf (l.map Node.handler) = IOEvent.unionMask r.handlers l := by
  rw [maskOf, foldl_nodeEvents]
  simp

theorem Lists.emask_eq [Fintype ι] {r : Reactor ι} {L : Nat → List ι} (h : Lists r L) (fd : Nat) :
    r.emask fd = IOEvent.unionMask r.handlers (L fd) := by
  rw [emask, h.nodes_eq, List.foldl_cons, foldl_nodeEvents]
  simp [nodeEvents, Events.none]

/-- epoll is asked for the mask and agrees, or does not have to be asked. -/
def Reactor.Granted (r : Reactor ι) (fd : Nat) (mask : EventId) : Prop :=
  mask = r.events fd ∨ r.answers 0 = true

/-! ## Adding -/

/-- The handler passes the tests of `AddHandler`. -/
structure Addable (r : Reactor ι) (i : ι) : Prop where
  fd_ok : r.badFd i = false
  alone : r.links.prev (.handler i) = none

/-- The test of `AddHandler` that saves the update. -/
def Reactor.Covered (r : Reactor ι) (i : ι) : Prop :=
  r.events (r.fdOf i) &&& (r.handlers i).events = (r.handlers i).events

instance (r : Reactor ι) (i : ι) : Decidable (r.Covered i) := inferInstanceAs (Decidable (_ = _))

variable [DecidableEq ι]

theorem kept_setEnabled (r : Reactor ι) (i : ι) (b : Bool) : Kept r (r.setEnabled i b) := by
  have hj : ∀ j, ((r.setEnabled i b).handlers j).fd = (r.handlers j).fd ∧
      ((r.setEnabled i b).handlers j).events = (r.handlers j).events := by
    intro j
    by_cases hj : j = i
    · subst hj
      simp [setEnabled]
    · simp [setEnabled, Function.update_of_ne hj]
  exact ⟨fun j => (hj j).1, fun j => (hj j).2, id⟩

variable [Fintype ι]

/-- epoll holds the events of the handler already, or accepts the new union. -/
def Reactor.Admits (r : Reactor ι) (i : ι) : Prop :=
  r.Covered i ∨ r.Granted (r.fdOf i) (r.maskOf (.handler i :: r.nodes (r.fdOf i)))

omit [DecidableEq ι] [Fintype ι] in
theorem Updated.kept {r r' : Reactor ι} (h : Updated r r') : Kept r r' :=
  ⟨fun j => by rw [h.handlers], fun j => by rw [h.handlers], h.granted⟩

theorem addHandler_of_not {r : Reactor ι} {i : ι} (hi : ¬ Addable r i) :
    (r.addHandler (some i)).2 = r := by
  rw [addHandler]
  by_cases hfd : r.badFd i = true
  · rw [if_pos hfd]
  · rw [if_neg hfd]
    by_cases hprev : (r.links.prev (.handler i)).isSome = true
    · rw [if_pos hprev]
    · exact absurd ⟨by simpa using hfd, by simpa using hprev⟩ hi

theorem addHandler_covered {r : Reactor ι} {i : ι} (hi : Addable r i) (hcov : r.Covered i) :
    r.addHandler (some i) =
      (.ok, { (r.insertNodeFront (r.fdOf i) i).setEnabled i true with count := r.count + 1 }) := by
  have hcov' : ¬ (r.insertNodeFront (r.fdOf i) i).events (r.fdOf i) &&&
      ((r.insertNodeFront (r.fdOf i) i).handlers i).events ≠
        ((r.insertNodeFront (r.fdOf i) i).handlers i).events := not_not.2 hcov
  rw [addHandler]
  simp only [hi.fd_ok, hi.alone, Bool.false_eq_true, if_false, Option.isSome_none]
  rw [if_neg hcov']
  rfl

theorem addHandler_asked {r : Reactor ι} {i : ι} (hi : Addable r i) (hcov : ¬ r.Covered i) :
    r.addHandler (some i) =
      (let u := (r.insertNodeFront (r.fdOf i) i).updateToDemultiplexer (r.fdOf i)
       if u.1 = true then (.ok, { u.2.setEnabled i true with count := u.2.count + 1 })
       else (.failed, u.2)) := by
  have hcov' : (r.insertNodeFront (r.fdOf i) i).events (r.fdOf i) &&&
      ((r.insertNodeFront (r.fdOf i) i).handlers i).events ≠
        ((r.insertNodeFront (r.fdOf i) i).handlers i).events := hcov
  rw [addHandler]
  simp only [hi.fd_ok, hi.alone, Bool.false_eq_true, if_false, Option.isSome_none]
  rw [if_pos hcov']
  cases ((r.insertNodeFront (r.fdOf i) i).updateToDemultiplexer (r.fdOf i)).1 <;> rfl

/-- The stored mask after an addition that went through. -/
def Reactor.addedMask (r : Reactor ι) (L : Nat → List ι) (i : ι) : EventId :=
  if r.Covered i then r.events (r.fdOf i) else IOEvent.unionMask r.handlers (i :: L (r.fdOf i))

/-- **What `AddHandler` does.** The handler is linked in any case, and counted if epoll agrees. -/
theorem addHandler_spec {r : Reactor ι} {L : Nat → List ι} (h : Ready r L) {i : ι}
    (hi : Addable r i) :
    Ready (r.addHandler (some i)).2 (Function.update L (r.fdOf i) (i :: L (r.fdOf i))) ∧
      Kept r (r.addHandler (some i)).2 ∧
      (r.Admits i → (r.addHandler (some i)).2.count = r.count + 1 ∧
        (r.addHandler (some i)).2.events = Function.update r.events (r.fdOf i) (r.addedMask L i)) := by
  have hlists := h.lists.insertNodeFront (h.lists.notMem_of_alone hi.alone) (r.fdOf i)
  have hreg : Registered (r.insertNodeFront (r.fdOf i) i) := h.registered.of_same rfl rfl rfl rfl
  have hkept : Kept r (r.insertNodeFront (r.fdOf i) i) := ⟨fun _ => rfl, fun _ => rfl, id⟩
  by_cases hcov : r.Covered i
  · rw [addHandler_covered hi hcov]
    have hen := kept_setEnabled (r.insertNodeFront (r.fdOf i) i) i true
    refine ⟨⟨hlists.of_same rfl rfl, hreg.of_same rfl rfl rfl rfl⟩,
      hkept.trans ⟨hen.fd, hen.events, hen.granted⟩, fun _ => ⟨rfl, ?_⟩⟩
    rw [addedMask, if_pos hcov, Function.update_eq_self]
    rfl
  · have hmask : (r.insertNodeFront (r.fdOf i) i).emask (r.fdOf i) =
        IOEvent.unionMask r.handlers (i :: L (r.fdOf i)) := by
      rw [hlists.emask_eq, Function.update_self]
      rfl
    obtain ⟨hupd, hok, hevents⟩ := hreg.update (r.fdOf i)
    rw [hmask] at hok hevents
    rw [addHandler_asked hi hcov]
    set u := (r.insertNodeFront (r.fdOf i) i).updateToDemultiplexer (r.fdOf i)
    have hen := kept_setEnabled u.2 i true
    by_cases hgrant : u.1 = true
    · simp only [if_pos hgrant]
      refine ⟨⟨hlists.of_same hupd.links hupd.size, hupd.registered.of_same rfl rfl rfl rfl⟩,
        (hkept.trans hupd.kept).trans ⟨hen.fd, hen.events, hen.granted⟩, fun _ => ⟨?_, ?_⟩⟩
      · rw [hupd.count]
        rfl
      · rw [addedMask, if_neg hcov]
        exact hevents hgrant
    · simp only [if_neg hgrant]
      refine ⟨⟨hlists.of_same hupd.links hupd.size, hupd.registered⟩, hkept.trans hupd.kept,
        fun hyes => ?_⟩
      rcases hyes with hyes | hyes
      · exact absurd hyes hcov
      · rw [h.lists.nodes_eq, ← List.map_cons, maskOf_map] at hyes
        exact absurd (hok.2 hyes) hgrant

/-! ## Updating and removing -/

theorem Lists.hasHandler_iff {r : Reactor ι} {L : Nat → List ι} (h : Lists r L) {i : ι} :
    r.hasHandler i = true ↔ 0 ≤ (r.handlers i).fd ∧ i ∈ L (r.fdOf i) := by
  rw [hasHandler, h.nodes_eq]
  by_cases hneg : (r.handlers i).fd < 0
  · simp [hneg]
  · by_cases hge : r.fdOf i ≥ r.size
    · rw [h.beyond _ hge]
      simp [hge]
    · simp only [hneg, hge, decide_false, Bool.or_self, Bool.false_eq_true, if_false,
        decide_eq_true_eq, List.mem_cons, reduceCtorEq, mem_map_handler, false_or]
      exact ⟨fun hi => ⟨Int.not_lt.1 hneg, hi⟩, fun hi => hi.2⟩

/-- `UpdateHandler` passes the new masks on, adds the handler, or does nothing. -/
theorem updateHandler_cases (r : Reactor ι) (i : ι) :
    (r.badFd i = false ∧ r.hasHandler i = true ∧ (r.links.prev (.handler i)).isSome = true ∧
        (r.updateHandler (some i)).2 = (r.updateToDemultiplexer (r.fdOf i)).2) ∨
      (Addable r i ∧ (r.updateHandler (some i)).2 = (r.addHandler (some i)).2) ∨
      ((r.badFd i = true ∨ (r.links.prev (.handler i)).isSome = true ∧ r.hasHandler i = false) ∧
        (r.updateHandler (some i)).2 = r) := by
  rw [updateHandler]
  by_cases hfd : r.badFd i = true
  · rw [if_pos hfd]
    exact Or.inr (Or.inr ⟨Or.inl hfd, rfl⟩)
  · rw [if_neg hfd]
    rw [Bool.not_eq_true] at hfd
    by_cases hprev : (r.links.prev (.handler i)).isSome = true
    · rw [if_pos hprev]
      cases hhas : r.hasHandler i with
      | false => exact Or.inr (Or.inr ⟨Or.inr ⟨hprev, rfl⟩, rfl⟩)
      | true => exact Or.inl ⟨hfd, rfl, hprev, rfl⟩
    · rw [if_neg hprev]
      exact Or.inr (Or.inl ⟨⟨hfd, by simpa using hprev⟩, rfl⟩)

omit [Fintype ι] in
theorem setEnabled_setEnabled (r : Reactor ι) (i : ι) (b c : Bool) :
    (r.setEnabled i b).setEnabled i c = r.setEnabled i c := by
  simp [Reactor.setEnabled]

omit [Fintype ι] in
theorem setEnabled_self (r : Reactor ι) (i : ι) : r.setEnabled i (r.handlers i).enabled = r := by
  simp [Reactor.setEnabled]

theorem hasHandler_setEnabled (r : Reactor ι) (i j : ι) (b : Bool) :
    (r.setEnabled i b).hasHandler j = r.hasHandler j := by
  have hkept := kept_setEnabled r i b
  rw [hasHandler, hasHandler, hkept.fd, hkept.fdOf]
  rfl

/-- The reactor as `RemoveHandler` has it when it asks epoll. -/
def Reactor.removed (r : Reactor ι) (i : ι) : Reactor ι :=
  { r.setEnabled i false with links := r.links.unlink (.handler i) }

omit [Fintype ι] in
theorem fdOf_removed (r : Reactor ι) (i : ι) : (r.removed i).fdOf i = r.fdOf i :=
  (kept_setEnabled r i false).fdOf i

theorem removeHandler_found {r : Reactor ι} {i : ι} (hfd : r.badFd i = false)
    (hhas : r.hasHandler i = true) :
    r.removeHandler (some i) =
      (let u := (r.removed i).updateToDemultiplexer (r.fdOf i)
       if u.1 = true then (.ok, { u.2 with count := u.2.count - 1 })
       else (.failed, u.2.setEnabled i true)) := by
  rw [Reactor.removeHandler]
  simp only [hfd, hasHandler_setEnabled, hhas, Bool.false_eq_true, if_false, Bool.not_true]
  have hq : { r.setEnabled i false with
      links := (r.setEnabled i false).links.unlink (.handler i) } = r.removed i := rfl
  rw [hq, fdOf_removed]
  cases ((r.removed i).updateToDemultiplexer (r.fdOf i)).1 <;> rfl

theorem removeHandler_not_found {r : Reactor ι} {i : ι} (hfd : r.badFd i = false)
    (hhas : r.hasHandler i = false) :
    r.removeHandler (some i) = (.notFound, r.setEnabled i true) := by
  rw [Reactor.removeHandler]
  simp only [hfd, hasHandler_setEnabled, hhas, Bool.false_eq_true, if_false, Bool.not_false, if_true,
    setEnabled_setEnabled]

theorem Lists.maskOf_erase {r : Reactor ι} {L : Nat → List ι} (h : Lists r L) (fd : Nat) (i : ι) :
    r.maskOf ((r.nodes fd).erase (.handler i)) = unionMask r.handlers ((L fd).erase i) := by
  have herase : ((L fd).map Node.handler).erase (.handler i) = ((L fd).erase i).map Node.handler :=
    (List.map_erase (fun _ _ h => Node.handler.inj h) _).symm
  rw [h.nodes_eq, herase, maskOf_map]

/-- What is left when a handler has been unlinked. -/
theorem Ready.removed {r : Reactor ι} {L : Nat → List ι} (h : Ready r L) {i : ι}
    (hi : i ∈ L (r.fdOf i)) :
    Lists (r.removed i) (Function.update L (r.fdOf i) ((L (r.fdOf i)).erase i)) ∧
      Kept r (r.removed i) ∧ Registered (r.removed i) ∧
      (r.removed i).emask (r.fdOf i) = unionMask r.handlers ((L (r.fdOf i)).erase i) := by
  have hkept := kept_setEnabled r i false
  have hlists : Lists (r.setEnabled i false) L := h.lists.of_same rfl rfl
  have hlists' : Lists (r.removed i) (Function.update L (r.fdOf i) ((L (r.fdOf i)).erase i)) :=
    hlists.unlink hi
  have hkept' : Kept r (r.removed i) := ⟨hkept.fd, hkept.events, hkept.granted⟩
  refine ⟨hlists', hkept', h.registered.of_same rfl rfl rfl rfl, ?_⟩
  rw [hlists'.emask_eq, Function.update_self, hkept'.unionMask]

/-- `RemoveHandler` of a handler that is not in the list of its descriptor. -/
theorem removeHandler_of_not {r : Reactor ι} {L : Nat → List ι} (h : Ready r L) {i : ι}
    (hi : r.badFd i = true ∨ i ∉ L (r.fdOf i)) :
    Ready (r.removeHandler (some i)).2 L ∧ Kept r (r.removeHandler (some i)).2 ∧
      (r.removeHandler (some i)).2.count = r.count ∧
      (r.removeHandler (some i)).2.events = r.events := by
  cases hfd : r.badFd i with
  | true =>
      rw [removeHandler, if_pos hfd]
      exact ⟨h, Kept.refl r, rfl, rfl⟩
  | false =>
      have hhas : r.hasHandler i = false := by
        rw [← Bool.not_eq_true, h.lists.hasHandler_iff]
        rw [hfd] at hi
        exact fun hmem => hi.elim (by simp) fun hnot => hnot hmem.2
      rw [removeHandler_not_found hfd hhas]
      exact ⟨⟨h.lists.of_same rfl rfl, h.registered.of_same rfl rfl rfl rfl⟩,
        kept_setEnabled r i true, rfl, rfl⟩

/-- **What `RemoveHandler` does.** The handler is unlinked in any case, and discounted if epoll
agrees. -/
theorem removeHandler_spec {r : Reactor ι} {L : Nat → List ι} (h : Ready r L) {i : ι}
    (hfd : r.badFd i = false) (hi : i ∈ L (r.fdOf i)) :
    Ready (r.removeHandler (some i)).2
        (Function.update L (r.fdOf i) ((L (r.fdOf i)).erase i)) ∧
      Kept r (r.removeHandler (some i)).2 ∧
      (r.Granted (r.fdOf i) (unionMask r.handlers ((L (r.fdOf i)).erase i)) →
        (r.removeHandler (some i)).2.count = r.count - 1 ∧
        (r.removeHandler (some i)).2.events = Function.update r.events (r.fdOf i)
          (unionMask r.handlers ((L (r.fdOf i)).erase i))) := by
  have hpos : 0 ≤ (r.handlers i).fd := by
    simp only [badFd, Bool.or_eq_false_iff, decide_eq_false_iff_not] at hfd
    omega
  have hhas : r.hasHandler i = true := h.lists.hasHandler_iff.2 ⟨hpos, hi⟩
  obtain ⟨hlists, hkept, hreg, hmask⟩ := h.removed hi
  obtain ⟨hupd, hok, hevents⟩ := hreg.update (r.fdOf i)
  rw [hmask] at hok hevents
  rw [removeHandler_found hfd hhas]
  set u := (r.removed i).updateToDemultiplexer (r.fdOf i)
  by_cases hgrant : u.1 = true
  · simp only [if_pos hgrant]
    have hukept := hkept.trans hupd.kept
    refine ⟨⟨hlists.of_same hupd.links hupd.size, hupd.registered.of_same rfl rfl rfl rfl⟩,
      ⟨hukept.fd, hukept.events, hukept.granted⟩, fun _ => ⟨?_, hevents hgrant⟩⟩
    rw [hupd.count]
    rfl
  · simp only [if_neg hgrant]
    exact ⟨⟨hlists.of_same hupd.links hupd.size, hupd.registered.of_same rfl rfl rfl rfl⟩,
      (hkept.trans hupd.kept).trans (kept_setEnabled u.2 i true),
      fun hyes => absurd (hok.2 hyes) hgrant⟩

/-! ## Cleaning -/

theorem kept_disableAll (r : Reactor ι) (fd : Nat) : Kept r (r.disableAll fd) := by
  have hj : ∀ j, ((r.disableAll fd).handlers j).fd = (r.handlers j).fd ∧
      ((r.disableAll fd).handlers j).events = (r.handlers j).events := by
    intro j
    show (if Node.handler j ∈ r.nodes fd then _ else _ : Handler).fd = _ ∧
      (if Node.handler j ∈ r.nodes fd then _ else _ : Handler).events = _
    split <;> exact ⟨rfl, rfl⟩
  exact ⟨fun j => (hj j).1, fun j => (hj j).2, id⟩

theorem doClean_of_empty {r : Reactor ι} {L : Nat → List ι} (h : Lists r L) {fd : Nat}
    (hnil : L fd = []) : r.doClean fd = (true, r) := by
  have hnext : r.links.next (.head fd) = none := by
    rw [(h.chain fd).head_eq, hnil]
    rfl
  rw [doClean, if_pos hnext]

/-- **What `DoClean` does.** The list becomes empty; the count is not looked at. -/
theorem doClean_spec {r : Reactor ι} {L : Nat → List ι} (h : Ready r L) (fd : Nat) :
    Ready (r.doClean fd).2 (Function.update L fd []) ∧ Kept r (r.doClean fd).2 ∧
      (r.doClean fd).2.size = r.size ∧
      (L fd = [] ∨ r.Granted fd Events.none → (r.doClean fd).2.events =
        if L fd = [] then r.events else Function.update r.events fd Events.none) := by
  by_cases hnil : L fd = []
  · have hL : Function.update L fd [] = L := by rw [← hnil, Function.update_eq_self]
    rw [doClean_of_empty h.lists hnil, hL]
    exact ⟨h, Kept.refl r, rfl, fun _ => by rw [if_pos hnil]⟩
  · have hnext : r.links.next (.head fd) ≠ none := by
      rw [(h.lists.chain fd).head_eq]
      cases hL : L fd with
      | nil => exact absurd hL hnil
      | cons j l => simp
    set q : Reactor ι := { r.disableAll fd with
      links := r.links.dissolve (Fintype.card ι) (r.links.next (.head fd)) } with hq
    have hkept := kept_disableAll r fd
    have hqkept : Kept r q := ⟨hkept.fd, hkept.events, hkept.granted⟩
    have hqlists : Lists q (Function.update L fd []) := h.lists.dissolve fd rfl rfl
    have hqreg : Registered q := h.registered.of_same rfl rfl rfl rfl
    have hmask : q.emask fd = Events.none := by
      rw [hqlists.emask_eq, Function.update_self]
      rfl
    obtain ⟨hupd, hok, hevents⟩ := hqreg.update fd
    rw [hmask] at hok hevents
    have hrun : r.doClean fd = q.updateToDemultiplexer fd := by
      rw [doClean, if_neg hnext]
    rw [hrun]
    refine ⟨⟨hqlists.of_same hupd.links hupd.size, hupd.registered⟩, hqkept.trans hupd.kept,
      hupd.size, fun hyes => ?_⟩
    rw [if_neg hnil]
    exact hevents (hok.2 (hyes.resolve_left hnil))

end CUtils.IOEvent
