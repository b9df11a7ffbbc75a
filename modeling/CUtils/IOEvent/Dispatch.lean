import CUtils.IOEvent.Interest

/-!
# Dispatch

`Polling` turns what epoll reports into events of the reactor, and `HandleEvents` collects the
callbacks of the handlers of the descriptor that ask for one of them. It looks at the stored mask
first and at `enabled_` for every handler. After every run the mask is the union of the masks and a
linked handler is enabled (`Enabled`), so the two guards turn nothing away.
-/

namespace CUtils.IOEvent

open LinkedList Reactor StateRun

variable {ι : Type}

namespace Reactor

def epoll2Reactor (epollEvents : BitVec 32) : EventId :=
  let res : EventId := Events.none
  -- EPOLLHUP without EPOLLIN
  let res := if epollEvents &&& 0x10 ≠ 0 ∧ epollEvents &&& 1 = 0 then res ||| Events.close else res
  -- EPOLLERR
  let res := if epollEvents &&& 8 ≠ 0 then res ||| Events.error else res
  -- EPOLLIN | EPOLLPRI | EPOLLRDHUP
  let res := if epollEvents &&& 0x2003 ≠ 0 then res ||| Events.read else res
  -- EPOLLOUT
  if epollEvents &&& 4 ≠ 0 then res ||| Events.write else res

/-- What `epoll_wait` may report: what it has been asked for, errors and hang-ups. -/
def Reports (r : Reactor ι) (fd : Nat) (epollEvents : BitVec 32) : Prop :=
  ∃ mask, r.kernel fd = some mask ∧ epollEvents &&& (mask ||| 0x18) = epollEvents

/-- The test of `HandleEvents` for one node; `cb` says which handlers have a callback. -/
def taken (r : Reactor ι) (cb : ι → Bool) (event : EventId) : Node ι → Option ι
  | .head _ => none
  | .handler i =>
      if (r.handlers i).events ≠ Events.none ∧ (r.handlers i).enabled = true ∧
        (r.handlers i).events &&& event ≠ 0 ∧ cb i = true then some i else none

/-- The handlers whose callbacks are put into `taskQue`, `none` for `EVENT_SYS_ERR_BADEVENT`. -/
def handleEvents [DecidableEq ι] [Fintype ι] (r : Reactor ι) (cb : ι → Bool) (fd : Nat)
    (event : EventId) : Option (List ι) :=
  if r.events fd &&& event = 0 then none else some ((r.nodes fd).filterMap (r.taken cb event))

end Reactor

/-! ## Bits -/

theorem epoll2Reactor_read (e : BitVec 32) :
    epoll2Reactor e &&& Events.read ≠ 0 ↔ e &&& 0x2003 ≠ 0 := by
  unfold epoll2Reactor
  by_cases hread : e &&& 0x2003 = 0 <;>
    simp only [hread, ne_eq, not_true_eq_false, not_false_eq_true, if_true, if_false] <;>
    split_ifs <;> decide

theorem epoll2Reactor_write (e : BitVec 32) :
    epoll2Reactor e &&& Events.write ≠ 0 ↔ e &&& 4 ≠ 0 := by
  unfold epoll2Reactor
  by_cases hwrite : e &&& 4 = 0 <;>
    simp only [hwrite, ne_eq, not_true_eq_false, not_false_eq_true, if_true, if_false] <;>
    split_ifs <;> decide

/-- What may be reported for a mask: `EPOLLRDHUP` is never asked for. -/
theorem reportable_read (m : EventId) :
    (reactor2Epoll m ||| 0x18) &&& 0x2003 = if m &&& Events.read ≠ 0 then 3 else 0 := by
  unfold reactor2Epoll
  split_ifs <;> rfl

theorem reportable_write (m : EventId) :
    (reactor2Epoll m ||| 0x18) &&& 4 = if m &&& Events.write ≠ 0 then 4 else 0 := by
  unfold reactor2Epoll
  split_ifs <;> rfl

theorem reactor2Epoll_read (m : EventId) (h : m &&& Events.read ≠ 0) :
    reactor2Epoll m &&& 3 = 3 := by
  simp only [reactor2Epoll, if_pos h]
  split_ifs <;> rfl

theorem reactor2Epoll_write (m : EventId) (h : m &&& Events.write ≠ 0) :
    reactor2Epoll m &&& 4 = 4 := by
  unfold reactor2Epoll
  split_ifs <;> rfl

/-- What is reported of some bits has been asked for. -/
theorem reported {e mask bits : BitVec 32} (he : e &&& mask = e) (hbits : e &&& bits ≠ 0) :
    mask &&& bits ≠ 0 := by
  intro hmask
  apply hbits
  rw [← he, BitVec.and_assoc, hmask]
  exact BitVec.and_zero

theorem unionMask_and (handlers : ι → Handler) (l : List ι) (event : EventId) :
    unionMask handlers l &&& event = 0 ↔ ∀ i ∈ l, (handlers i).events &&& event = 0 := by
  induction l with
  | nil => simp [unionMask, Events.none]
  | cons i l ih =>
      rw [unionMask, BitVec.and_or_distrib_right, List.forall_mem_cons, ← ih]
      exact BitVec.or_eq_zero_iff

/-! ## Linked handlers are enabled -/

variable [Fintype ι]

def Enabled (r : Reactor ι) : Prop :=
  ∀ fd i, Node.handler i ∈ r.nodes fd → (r.handlers i).enabled = true

omit [Fintype ι] in
theorem enabled_setEnabled [DecidableEq ι] (r : Reactor ι) (i j : ι) (b : Bool) :
    ((r.setEnabled i b).handlers j).enabled = if j = i then b else (r.handlers j).enabled := by
  by_cases hj : j = i
  · subst hj
    simp [setEnabled]
  · simp [setEnabled, hj]

theorem Enabled.new (handlers : ι → Handler) : Enabled (Reactor.new handlers fun _ => true) := by
  intro fd i hi
  rw [(Lists.new handlers _).nodes_eq] at hi
  exact absurd hi List.not_mem_nil

/-- An operation that leaves the handlers alone, and links none. -/
theorem Enabled.of_same {r r' : Reactor ι} (h : Enabled r) (hlinks : r'.links = r.links)
    (henabled : ∀ i, (r'.handlers i).enabled = (r.handlers i).enabled) : Enabled r' := by
  intro fd i hi
  rw [henabled]
  rw [nodes, hlinks] at hi
  exact h fd i hi

variable [DecidableEq ι]

theorem Enabled.addHandler {r : Reactor ι} {L : Nat → List ι} (h : Enabled r) (hL : Tuned r L)
    (i : ι) : Enabled (r.addHandler (some i)).2 := by
  by_cases hi : Addable r i
  · have hready := (addHandler_spec hL.ready hi).1
    have hhandlers : ∀ j, ((r.addHandler (some i)).2.handlers j).enabled =
        if j = i then true else (r.handlers j).enabled := by
      intro j
      by_cases hcov : r.Covered i
      · rw [addHandler_covered hi hcov]
        exact enabled_setEnabled r i j true
      · have hreg : Registered (r.insertNodeFront (r.fdOf i) i) :=
          hL.ready.registered.of_same rfl rfl rfl rfl
        obtain ⟨hupd, hok, -⟩ := hreg.update (r.fdOf i)
        rw [addHandler_asked hi hcov]
        simp only [if_pos (hok.2 (Or.inr (hL.granted 0)))]
        refine (enabled_setEnabled _ i j true).trans ?_
        rw [hupd.handlers]
        rfl
    intro fd j hj
    rw [hhandlers]
    by_cases hji : j = i
    · rw [if_pos hji]
    · rw [if_neg hji]
      apply h fd j
      rw [hready.lists.nodes_eq, mem_map_handler] at hj
      rw [hL.ready.lists.nodes_eq, mem_map_handler]
      by_cases hfd : fd = r.fdOf i
      · subst hfd
        rw [Function.update_self] at hj
        exact (List.mem_cons.1 hj).resolve_left hji
      · rwa [Function.update_of_ne hfd] at hj
  · rw [addHandler_of_not hi]
    exact h

theorem Enabled.updateHandler {r : Reactor ι} (h : Enabled r) (hreg : Registered r) {i : ι}
    (hL : Addable r i → ∃ L, Tuned r L) : Enabled (r.updateHandler (some i)).2 := by
  rcases updateHandler_cases r i with ⟨-, -, -, hrun⟩ | ⟨hadd, hrun⟩ | ⟨-, hrun⟩
  · have hupd := (hreg.update (r.fdOf i)).1
    rw [hrun]
    exact h.of_same hupd.links fun j => by rw [hupd.handlers]
  · obtain ⟨L, hL⟩ := hL hadd
    rw [hrun]
    exact h.addHandler hL i
  · rw [hrun]
    exact h

theorem Enabled.removeHandler {r : Reactor ι} {L : Nat → List ι} (h : Enabled r) (hL : Tuned r L)
    (i : ι) : Enabled (r.removeHandler (some i)).2 := by
  cases hfd : r.badFd i with
  | true =>
      rw [Reactor.removeHandler, if_pos hfd]
      exact h
  | false =>
      cases hhas : r.hasHandler i with
      | false =>
          rw [removeHandler_not_found hfd hhas]
          intro fd j hj
          rw [enabled_setEnabled]
          split_ifs
          · rfl
          · exact h fd j hj
      | true =>
          have hi := (hL.ready.lists.hasHandler_iff.1 hhas).2
          have hready := (removeHandler_spec hL.ready hfd hi).1
          obtain ⟨-, -, hreg, -⟩ := hL.ready.removed hi
          obtain ⟨hupd, hok, -⟩ := hreg.update (r.fdOf i)
          have hrun : (r.removeHandler (some i)).2.handlers = (r.setEnabled i false).handlers := by
            rw [removeHandler_found hfd hhas]
            simp only [if_pos (hok.2 (Or.inr (hL.granted 0)))]
            exact hupd.handlers
          intro fd j hj
          rw [hready.lists.nodes_eq, mem_map_handler] at hj
          -- the handler itself is in no list any more
          have hother : j ∈ L fd ∧ j ≠ i := by
            by_cases hf : fd = r.fdOf i
            · subst hf
              rw [Function.update_self] at hj
              exact ((hL.ready.lists.nodup _).mem_erase_iff.1 hj).symm
            · rw [Function.update_of_ne hf] at hj
              refine ⟨hj, ?_⟩
              rintro rfl
              exact hf (hL.ready.lists.unique hj hi)
          rw [hrun, enabled_setEnabled, if_neg hother.2]
          apply h fd j
          rw [hL.ready.lists.nodes_eq, mem_map_handler]
          exact hother.1

theorem Enabled.doClean {r : Reactor ι} {L : Nat → List ι} (h : Enabled r) (hL : Tuned r L)
    (fd : Nat) : Enabled (r.doClean fd).2 := by
  by_cases hnil : L fd = []
  · rw [doClean_of_empty hL.ready.lists hnil]
    exact h
  · have hready := (doClean_spec hL.ready fd).1
    have hnext : r.links.next (.head fd) ≠ none := by
      rw [(hL.ready.lists.chain fd).head_eq]
      cases hcons : L fd with
      | nil => exact absurd hcons hnil
      | cons j l => simp
    have hrun : (r.doClean fd).2.handlers = (r.disableAll fd).handlers := by
      set q : Reactor ι := { r.disableAll fd with
        links := r.links.dissolve (Fintype.card ι) (r.links.next (.head fd)) } with hq
      have hreg : Registered q := hL.ready.registered.of_same rfl rfl rfl rfl
      rw [Reactor.doClean, if_neg hnext]
      exact (hreg.update fd).1.handlers
    intro fd' j hj
    rw [hready.lists.nodes_eq, mem_map_handler] at hj
    have hf : fd' ≠ fd := by
      rintro rfl
      rw [Function.update_self] at hj
      exact List.not_mem_nil hj
    rw [Function.update_of_ne hf] at hj
    have hout : Node.handler j ∉ r.nodes fd := by
      rw [hL.ready.lists.nodes_eq, mem_map_handler]
      exact fun hmem => hf (hL.ready.lists.unique hj hmem)
    rw [hrun, disableAll]
    simp only [if_neg hout]
    apply h fd' j
    rw [hL.ready.lists.nodes_eq, mem_map_handler]
    exact hj

theorem Enabled.cleanLoop {r : Reactor ι} {L : Nat → List ι} (h : Enabled r) (hL : Tuned r L)
    (fds : List Nat) (res : ErrCode) : Enabled (r.cleanLoop fds res).2 := by
  induction fds generalizing r L res with
  | nil => exact h
  | cons fd fds ih => exact ih (h.doClean hL fd) (hL.doClean fd) _

omit [Fintype ι] in
theorem enabled_update {r : Reactor ι} (i j : ι) {handler : Handler}
    (hsame : handler.enabled = (r.handlers i).enabled) :
    (Function.update r.handlers i handler j).enabled = (r.handlers j).enabled := by
  by_cases hj : j = i
  · subst hj
    rw [Function.update_self, hsame]
  · rw [Function.update_of_ne hj]

theorem Enabled.step {r : Reactor ι} {L : Nat → List ι} (h : Enabled r) (hL : Tuned r L) (op : Op ι)
    (hop : op.Careful r) : Enabled (r.step op) := by
  cases op with
  | addHandler target =>
      cases target with
      | none => exact h
      | some i => exact h.addHandler hL i
  | updateHandler target =>
      cases target with
      | none => exact h
      | some i => exact h.updateHandler hL.ready.registered fun _ => ⟨L, hL⟩
  | removeHandler target =>
      cases target with
      | none => exact h
      | some i => exact h.removeHandler hL i
  | clean fd =>
      by_cases hfd : fd < r.size
      · rw [Reactor.step, if_pos hfd]
        exact h.doClean hL fd
      · rw [Reactor.step, if_neg hfd]
        exact h
  | cleanUp => exact h.cleanLoop hL _ _
  | destroy i =>
      have hfree := hL.ready.lists.free (hL.ready.lists.notMem_of_alone hop)
      rw [Reactor.step, destroy, unlink_free hfree.1 hfree.2]
      exact h
  | setFd i fd => exact h.of_same rfl fun j => enabled_update i j rfl
  | setEvents i events => exact h.of_same rfl fun j => enabled_update i j rfl
  | change i events =>
      have hset : Enabled (r.setEvents i events) := h.of_same rfl fun j => enabled_update i j rfl
      have hreg : Registered (r.setEvents i events) :=
        hL.ready.registered.of_same rfl rfl rfl rfl
      refine hset.updateHandler hreg fun hadd => ⟨L, ?_⟩
      exact hL.set (hL.ready.lists.notMem_of_alone hadd.alone) _

/-! ## Dispatch -/

/-- How the events of a descriptor reach the handlers. -/
structure Serves (r : Reactor ι) : Prop where
  /-- The handlers called are those of the list that ask for one of the events and have a callback,
  each once and in the order of the list. -/
  called : ∀ cb fd event l, r.handleEvents cb fd event = some l → l.Nodup ∧
    (l.map Node.handler).Sublist (r.nodes fd) ∧
      ∀ i, i ∈ l ↔ .handler i ∈ r.nodes fd ∧ (r.handlers i).events &&& event ≠ 0 ∧ cb i = true
  /-- Events are turned away when no handler of the list asks for any of them. -/
  badEvent : ∀ cb fd event, r.handleEvents cb fd event = none ↔
    ∀ i, .handler i ∈ r.nodes fd → (r.handlers i).events &&& event = 0
  /-- What a handler of the list waits for is what epoll watches. -/
  watched : ∀ fd i, .handler i ∈ r.nodes fd → (r.handlers i).events ≠ Events.none →
    ∃ mask, r.kernel fd = some mask ∧ ((r.handlers i).events &&& Events.read ≠ 0 → mask &&& 3 = 3) ∧
      ((r.handlers i).events &&& Events.write ≠ 0 → mask &&& 4 = 4)
  /-- A read or write event that epoll reports reaches a handler that waits for it. -/
  heard : ∀ cb fd e bit, bit = Events.read ∨ bit = Events.write → r.Reports fd e →
    epoll2Reactor e &&& bit ≠ 0 → ∃ i l, .handler i ∈ r.nodes fd ∧ (r.handlers i).events &&& bit ≠ 0 ∧
      r.handleEvents cb fd (epoll2Reactor e) = some l ∧ (cb i = true → i ∈ l)

omit [Fintype ι] [DecidableEq ι] in
theorem taken_eq_some {r : Reactor ι} {cb : ι → Bool} {event : EventId} {n : Node ι} {i : ι} :
    r.taken cb event n = some i ↔ n = .handler i ∧ (r.handlers i).enabled = true ∧
      (r.handlers i).events &&& event ≠ 0 ∧ cb i = true := by
  cases n with
  | head fd => simp [taken]
  | handler j =>
      rw [taken]
      constructor
      · intro h
        split_ifs at h with hj
        cases h
        exact ⟨rfl, hj.2⟩
      · rintro ⟨hj, henabled, hasks, hcb⟩
        cases hj
        refine if_pos ⟨?_, henabled, hasks, hcb⟩
        intro hnone
        rw [hnone] at hasks
        exact hasks BitVec.zero_and

omit [Fintype ι] [DecidableEq ι] in
theorem taken_sublist {r : Reactor ι} {cb : ι → Bool} {event : EventId} (l : List (Node ι)) :
    ((l.filterMap (r.taken cb event)).map Node.handler).Sublist l := by
  induction l with
  | nil => exact .slnil
  | cons n l ih =>
      cases hn : r.taken cb event n with
      | none =>
          rw [List.filterMap_cons_none hn]
          exact ih.cons n
      | some i =>
          rw [List.filterMap_cons_some hn, List.map_cons, (taken_eq_some.1 hn).1]
          exact ih.cons_cons _

theorem handleEvents_none {r : Reactor ι} {L : Nat → List ι} (hL : Tuned r L) (cb : ι → Bool)
    (fd : Nat) (event : EventId) : r.handleEvents cb fd event = none ↔
      ∀ i, .handler i ∈ r.nodes fd → (r.handlers i).events &&& event = 0 := by
  rw [handleEvents, hL.events, hL.ready.lists.nodes_eq]
  simp only [mem_map_handler]
  rw [← unionMask_and]
  split_ifs with hmask
  · exact iff_of_true rfl hmask
  · exact iff_of_false (by simp) hmask

theorem handleEvents_some {r : Reactor ι} {cb : ι → Bool} {fd : Nat} {event : EventId} {l : List ι}
    (h : r.handleEvents cb fd event = some l) : l = (r.nodes fd).filterMap (r.taken cb event) := by
  rw [handleEvents] at h
  split_ifs at h with hmask
  exact (Option.some.inj h).symm

/-- Both masks have the bit. -/
theorem and_ne_zero_of_bit {x y : EventId} {k : Nat} (hx : x &&& BitVec.twoPow 32 k ≠ 0)
    (hy : y &&& BitVec.twoPow 32 k ≠ 0) : x &&& y ≠ 0 := by
  have hbit : ∀ z : EventId, z &&& BitVec.twoPow 32 k ≠ 0 → z.getLsbD k = true := by
    intro z hz
    rw [BitVec.and_twoPow] at hz
    by_contra hk
    rw [if_neg hk] at hz
    exact hz rfl
  intro hzero
  have hk : (x &&& y).getLsbD k = true := by
    rw [BitVec.getLsbD_and, hbit x hx, hbit y hy]
    rfl
  rw [hzero, BitVec.ofNat_eq_ofNat, BitVec.getLsbD_zero] at hk
  exact Bool.false_ne_true hk

omit [DecidableEq ι] in
/-- The mask of the list has what some handler of the list asks for. -/
theorem maskOf_and {r : Reactor ι} {L : Nat → List ι} (hL : Tuned r L) (fd : Nat)
    (event : EventId) : r.maskOf (r.nodes fd) &&& event ≠ 0 ↔
      ∃ i, .handler i ∈ r.nodes fd ∧ (r.handlers i).events &&& event ≠ 0 := by
  rw [hL.ready.lists.nodes_eq, maskOf_map, ne_eq, unionMask_and]
  simp [mem_map_handler]

omit [DecidableEq ι] in
/-- What `Epoll2Reactor` makes of a report is asked for. -/
theorem maskOf_of_report {r : Reactor ι} (h : InStep r) {fd : Nat} {e : BitVec 32} {bit : EventId}
    (hbit : bit = Events.read ∨ bit = Events.write) (hreports : r.Reports fd e)
    (he : epoll2Reactor e &&& bit ≠ 0) : r.maskOf (r.nodes fd) &&& bit ≠ 0 := by
  obtain ⟨mask, hkernel, hmask⟩ := hreports
  rw [h.kernel] at hkernel
  split_ifs at hkernel with hnone
  cases hkernel
  rcases hbit with rfl | rfl
  · have hasked := reported hmask ((epoll2Reactor_read e).1 he)
    rw [reportable_read] at hasked
    intro hno
    rw [if_neg (not_not.2 hno)] at hasked
    exact hasked rfl
  · have hasked := reported hmask ((epoll2Reactor_write e).1 he)
    rw [reportable_write] at hasked
    intro hno
    rw [if_neg (not_not.2 hno)] at hasked
    exact hasked rfl

omit [DecidableEq ι] in
theorem watched_of_linked {r : Reactor ι} {L : Nat → List ι} (hL : Tuned r L) {fd : Nat} {i : ι}
    (hi : .handler i ∈ r.nodes fd) (hsome : (r.handlers i).events ≠ Events.none) :
    r.kernel fd = some (reactor2Epoll (r.maskOf (r.nodes fd))) := by
  rw [hL.inStep.kernel]
  apply if_neg
  intro hnone
  have hasks : (r.handlers i).events &&& (r.handlers i).events ≠ 0 := by
    rw [BitVec.and_self]
    exact hsome
  apply (maskOf_and hL fd _).2 ⟨i, hi, hasks⟩
  rw [hnone]
  exact BitVec.zero_and

theorem Tuned.serves {r : Reactor ι} {L : Nat → List ι} (hL : Tuned r L) (h : Enabled r) :
    Serves r := by
  have hstep := hL.inStep
  have hcalled : ∀ cb fd event l, r.handleEvents cb fd event = some l → ∀ i, i ∈ l ↔
      .handler i ∈ r.nodes fd ∧ (r.handlers i).events &&& event ≠ 0 ∧ cb i = true := by
    intro cb fd event l hl i
    rw [handleEvents_some hl, List.mem_filterMap]
    constructor
    · rintro ⟨n, hn, htaken⟩
      obtain ⟨rfl, -, hasks⟩ := taken_eq_some.1 htaken
      exact ⟨hn, hasks⟩
    · rintro ⟨hn, hasks⟩
      exact ⟨_, hn, taken_eq_some.2 ⟨rfl, h fd i hn, hasks⟩⟩
  refine ⟨fun cb fd event l hl => ?_, handleEvents_none hL, fun fd i hi hsome => ?_,
    fun cb fd e bit hbit hreports he => ?_⟩
  · have hsub : (l.map Node.handler).Sublist (r.nodes fd) := by
      rw [handleEvents_some hl]
      exact taken_sublist _
    exact ⟨.of_map _ (hsub.nodup (hstep.nodup fd)), hsub, hcalled cb fd event l hl⟩
  · refine ⟨_, watched_of_linked hL hi hsome, fun hread => ?_, fun hwrite => ?_⟩
    · exact reactor2Epoll_read _ ((maskOf_and hL fd _).2 ⟨i, hi, hread⟩)
    · exact reactor2Epoll_write _ ((maskOf_and hL fd _).2 ⟨i, hi, hwrite⟩)
  · obtain ⟨i, hi, hasks⟩ := (maskOf_and hL fd bit).1 (maskOf_of_report hstep hbit hreports he)
    have hboth : (r.handlers i).events &&& epoll2Reactor e ≠ 0 := by
      rcases hbit with rfl | rfl
      · exact and_ne_zero_of_bit (k := 0) hasks he
      · exact and_ne_zero_of_bit (k := 1) hasks he
    cases hhandle : r.handleEvents cb fd (epoll2Reactor e) with
    | none => exact absurd ((handleEvents_none hL cb fd _).1 hhandle i hi) hboth
    | some l =>
        refine ⟨i, l, hi, hasks, rfl, fun hcb => ?_⟩
        exact (hcalled cb fd _ l hhandle i).2 ⟨hi, hboth, hcb⟩

/-- **Dispatch is exact.** As long as epoll agrees, after every run an event calls the handlers that
ask for it and no others, each once, and what a linked handler waits for is watched and is passed on
to a handler when it comes. -/
theorem dispatch_exact (handlers : ι → Handler) (ops : List (Op ι))
    (hops : Along (fun r op => op.Careful r) Reactor.step
      (Reactor.new handlers fun _ => true) ops) :
    Serves ((Reactor.new handlers fun _ => true).run ops) := by
  obtain ⟨⟨L, hL⟩, h⟩ := hops.invariant (I := fun r => (∃ L, Tuned r L) ∧ Enabled r)
    (fun r op hop hr => hr.1.elim fun L h => ⟨h.step op hop, hr.2.step h op hop⟩)
    ⟨⟨_, Tuned.new handlers⟩, Enabled.new handlers⟩
  exact hL.serves h

/-- Of three handlers for one descriptor, one is removed and one changes its mask. -/
def shared : Reactor (Fin 3) :=
  (Reactor.new (fun i => ⟨3, if i = 1 then Events.write else Events.read, false⟩) fun _ => true).run
    [.addHandler (some 0), .addHandler (some 1), .addHandler (some 2), .removeHandler (some 0),
      .change 1 (Events.read ||| Events.write)]

theorem dispatch_exact_shared :
    Serves shared ∧ shared.Reports 3 0x11 ∧ epoll2Reactor 0x11 = Events.read ∧
      shared.handleEvents (fun _ => true) 3 Events.read = some [2, 1] ∧
      shared.handleEvents (fun _ => true) 3 Events.write = some [1] ∧
      shared.handleEvents (fun _ => true) 3 Events.close = none :=
  ⟨dispatch_exact _ _ ⟨trivial, trivial, trivial, trivial, trivial, trivial⟩,
    ⟨7, by decide +kernel, by decide⟩, by decide, by decide +kernel, by decide +kernel,
    by decide +kernel⟩

end CUtils.IOEvent
