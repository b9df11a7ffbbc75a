import CUtils.IOEvent.Failure

/-!
# Indices of the handler table

`ioHandlers_` is a vector that only `AddHandler` makes longer, and its entries are taken without a
check. For every function that takes one, the indices it uses are listed in order, each with the size
the table has at that time (`Access`); a negative `int` becomes an index that no table has.

`HandleEvents` is called with descriptors that epoll has named. What `Polling` has brought is kept
until it is dealt with, and any calls may come in between.
-/

namespace CUtils.IOEvent

open LinkedList Reactor StateRun

variable {ι : Type} [DecidableEq ι] [Fintype ι]

/-! ## Accesses -/

structure Access where
  index : Int
  /-- `ioHandlers_.size()` at that time. -/
  size : Nat
  deriving DecidableEq

def Access.InBounds (a : Access) : Prop := 0 ≤ a.index ∧ a.index < a.size

namespace Reactor

def access (r : Reactor ι) (fd : Int) : Access := ⟨fd, r.size⟩

def updateToDemultiplexerAccesses (r : Reactor ι) (fd : Int) : List Access :=
  -- the head of the list, and the stored mask
  [r.access fd, r.access fd] ++
    if r.emask fd.toNat = r.events fd.toNat then []
    else if (r.updateToDemultiplexer fd.toNat).1 then [r.access fd] else []

def hasHandlerAccesses (r : Reactor ι) (i : ι) : List Access :=
  if (r.handlers i).fd < 0 || r.fdOf i ≥ r.size then [] else [r.access (r.handlers i).fd]

def addHandlerAccesses (r : Reactor ι) : Option ι → List Access
  | none => []
  | some i =>
      if r.badFd i then []
      else if (r.links.prev (.handler i)).isSome then []
      else
        let fd := (r.handlers i).fd
        let r := r.insertNodeFront (r.fdOf i) i
        -- that of `InsertNodeFront`, and the stored mask
        [r.access fd, r.access fd] ++
          if r.events (r.fdOf i) &&& (r.handlers i).events ≠ (r.handlers i).events then
            r.updateToDemultiplexerAccesses fd
          else []

def updateHandlerAccesses (r : Reactor ι) (target : Option ι) : List Access :=
  match target with
  | none => []
  | some i =>
      if r.badFd i then []
      else if (r.links.prev (.handler i)).isSome then
        r.hasHandlerAccesses i ++
          if r.hasHandler i then r.updateToDemultiplexerAccesses (r.handlers i).fd else []
      else r.addHandlerAccesses target

def removeHandlerAccesses (r : Reactor ι) : Option ι → List Access
  | none => []
  | some i =>
      if r.badFd i then []
      else
        r.hasHandlerAccesses i ++
          if r.hasHandler i then (r.removed i).updateToDemultiplexerAccesses (r.handlers i).fd else []

def findHandlerAccesses (r : Reactor ι) : Option ι → List Access
  | none => []
  | some i => if r.badFd i then [] else r.hasHandlerAccesses i

/-- The reactor as `DoClean` has it when it asks epoll. -/
def cleaned (r : Reactor ι) (fd : Nat) : Reactor ι :=
  { r.disableAll fd with
    links := r.links.dissolve (Fintype.card ι) (r.links.next (.head fd)) }

def doCleanAccesses (r : Reactor ι) (fd : Int) : List Access :=
  r.access fd ::
    if r.links.next (.head fd.toNat) = none then []
    else r.access fd :: (r.cleaned fd.toNat).updateToDemultiplexerAccesses fd

def cleanLoopAccesses (r : Reactor ι) : List Nat → List Access
  | [] => []
  | fd :: fds => r.doCleanAccesses fd ++ (r.doClean fd).2.cleanLoopAccesses fds

def cleanUpAccesses (r : Reactor ι) : List Access := r.cleanLoopAccesses (List.range r.size)

/-- `Clean(fd)`; the one descriptor it refuses is `-1`. -/
def cleanAccesses (r : Reactor ι) (fd : Int) : List Access :=
  if fd = -1 then [] else r.doCleanAccesses fd

/-- `HandleEvents(fd, event)`: the stored mask, and the list if there is interest. -/
def handleEventsAccesses (r : Reactor ι) (fd : Int) (event : EventId) : List Access :=
  r.access fd :: if r.events fd.toNat &&& event = 0 then [] else [r.access fd]

end Reactor

/-! ## Runs -/

/-- The reactor, and what `Polling` has brought and `HandleAll` has not yet dealt with. -/
structure Loop (ι : Type) where
  reactor : Reactor ι
  gotEvents : List (Int × EventId)

inductive Call (ι : Type)
  | addHandler (target : Option ι)
  | updateHandler (target : Option ι)
  | removeHandler (target : Option ι)
  | findHandler (target : Option ι)
  | clean (fd : Int)
  | cleanUp
  | destroy (i : ι)
  | setFd (i : ι) (fd : Int)
  | setEvents (i : ι) (events : EventId)
  /-- `epoll_wait` names some of the descriptors that are registered. -/
  | polling (events : List (Nat × EventId))
  /-- `HandleEvents` for the next of the events. -/
  | handleEvents

namespace Loop

def step (s : Loop ι) : Call ι → Loop ι
  | .addHandler target => { s with reactor := s.reactor.step (.addHandler target) }
  | .updateHandler target => { s with reactor := s.reactor.step (.updateHandler target) }
  | .removeHandler target => { s with reactor := s.reactor.step (.removeHandler target) }
  | .findHandler _ => s
  | .clean fd => if 0 ≤ fd then { s with reactor := s.reactor.step (.clean fd.toNat) } else s
  | .cleanUp => { s with reactor := s.reactor.step .cleanUp }
  | .destroy i => { s with reactor := s.reactor.step (.destroy i) }
  | .setFd i fd => { s with reactor := s.reactor.step (.setFd i fd) }
  | .setEvents i events => { s with reactor := s.reactor.step (.setEvents i events) }
  | .polling events =>
      { s with
        gotEvents := s.gotEvents ++
          (events.filter fun e => (s.reactor.kernel e.1).isSome).map fun e => ((e.1 : Int), e.2) }
  | .handleEvents => { s with gotEvents := s.gotEvents.tail }

def accesses (s : Loop ι) : Call ι → List Access
  | .addHandler target => s.reactor.addHandlerAccesses target
  | .updateHandler target => s.reactor.updateHandlerAccesses target
  | .removeHandler target => s.reactor.removeHandlerAccesses target
  | .findHandler target => s.reactor.findHandlerAccesses target
  | .clean fd => s.reactor.cleanAccesses fd
  | .cleanUp => s.reactor.cleanUpAccesses
  | .destroy _ | .setFd _ _ | .setEvents _ _ | .polling _ => []
  | .handleEvents =>
      match s.gotEvents with
      | [] => []
      | e :: _ => s.reactor.handleEventsAccesses e.1 e.2

/-- The accesses of a run. -/
def runAccesses (s : Loop ι) : List (Call ι) → List Access
  | [] => []
  | call :: calls => s.accesses call ++ (s.step call).runAccesses calls

end Loop

/-! ## The table only grows -/

/-- The table is no shorter, and the masks beyond its end are untouched. -/
structure Grown (r r' : Reactor ι) : Prop where
  size : r.size ≤ r'.size
  events : ∀ fd ≥ r'.size, r'.events fd = r.events fd

omit [DecidableEq ι] [Fintype ι] in
theorem Grown.of_same {r r' : Reactor ι} (hsize : r'.size = r.size) (hevents : r'.events = r.events) :
    Grown r r' :=
  ⟨hsize.ge, fun _ _ => by rw [hevents]⟩

omit [DecidableEq ι] [Fintype ι] in
theorem Grown.trans {r s t : Reactor ι} (h : Grown r s) (h' : Grown s t) : Grown r t :=
  ⟨h.size.trans h'.size, fun fd hfd =>
    (h'.events fd hfd).trans (h.events fd (h'.size.trans hfd))⟩

omit [DecidableEq ι] in
theorem grown_update {r : Reactor ι} (h : Registered r) {fd : Nat} (hfd : fd < r.size) :
    Grown r (r.updateToDemultiplexer fd).2 := by
  obtain ⟨hupd, -, -⟩ := h.update fd
  refine ⟨hupd.size.ge, fun fd' hge => ?_⟩
  rw [hupd.size] at hge
  have hne : fd' ≠ fd := by omega
  rw [h.run_updateToDemultiplexer]
  split
  · rfl
  · split
    · exact Function.update_of_ne hne _ _
    · rfl

omit [Fintype ι] in
theorem grown_insertNodeFront (r : Reactor ι) (hsize : initFdNums ≤ r.size) (fd : Nat) (i : ι) :
    Grown r (r.insertNodeFront fd i) ∧ fd < (r.insertNodeFront fd i).size := by
  have hroom : r.size ≤ (r.insertNodeFront fd i).size ∧ fd < (r.insertNodeFront fd i).size := by
    simp only [initFdNums] at hsize
    show r.size ≤ (if fd > r.size - 1 then fd * 2 else r.size) ∧
      fd < if fd > r.size - 1 then fd * 2 else r.size
    split <;> omega
  exact ⟨⟨hroom.1, fun _ _ => rfl⟩, hroom.2⟩

theorem grown_addHandler {r : Reactor ι} {L : Nat → List ι} (h : Ready r L) (i : ι) :
    Grown r (r.addHandler (some i)).2 := by
  by_cases hi : Addable r i
  · obtain ⟨hgrown, hfd⟩ := grown_insertNodeFront r h.lists.size_ge (r.fdOf i) i
    by_cases hcov : r.Covered i
    · rw [addHandler_covered hi hcov]
      exact hgrown.trans (.of_same rfl rfl)
    · have hreg : Registered (r.insertNodeFront (r.fdOf i) i) :=
        h.registered.of_same rfl rfl rfl rfl
      have hupd := grown_update hreg hfd
      rw [addHandler_asked hi hcov]
      simp only
      split
      · exact (hgrown.trans hupd).trans (.of_same rfl rfl)
      · exact hgrown.trans hupd
  · rw [addHandler_of_not hi]
    exact .of_same rfl rfl

theorem fdOf_lt_of_hasHandler {r : Reactor ι} {i : ι} (h : r.hasHandler i = true) :
    0 ≤ (r.handlers i).fd ∧ r.fdOf i < r.size := by
  rw [hasHandler] at h
  split at h
  · exact absurd h (by simp)
  · rename_i hbad
    simp only [Bool.or_eq_true, decide_eq_true_eq, not_or, Int.not_lt, ge_iff_le, Nat.not_le] at hbad
    exact hbad

theorem grown_updateHandler {r : Reactor ι} {L : Nat → List ι} (h : Ready r L) (i : ι) :
    Grown r (r.updateHandler (some i)).2 := by
  rcases updateHandler_cases r i with ⟨-, hhas, -, hrun⟩ | ⟨-, hrun⟩ | ⟨-, hrun⟩
  · rw [hrun]
    exact grown_update h.registered (fdOf_lt_of_hasHandler hhas).2
  · rw [hrun]
    exact grown_addHandler h i
  · rw [hrun]
    exact .of_same rfl rfl

theorem grown_removeHandler {r : Reactor ι} {L : Nat → List ι} (h : Ready r L) (i : ι) :
    Grown r (r.removeHandler (some i)).2 := by
  cases hfd : r.badFd i with
  | true =>
      rw [Reactor.removeHandler, if_pos hfd]
      exact .of_same rfl rfl
  | false =>
      cases hhas : r.hasHandler i with
      | false =>
          rw [removeHandler_not_found hfd hhas]
          exact .of_same rfl rfl
      | true =>
          obtain ⟨-, -, hreg, -⟩ := h.removed (h.lists.hasHandler_iff.1 hhas).2
          have hupd := grown_update hreg (fdOf_lt_of_hasHandler hhas).2
          have hsame : Grown r (r.removed i) := .of_same rfl rfl
          rw [removeHandler_found hfd hhas]
          simp only
          split
          · exact (hsame.trans hupd).trans (.of_same rfl rfl)
          · exact (hsame.trans hupd).trans (.of_same rfl rfl)

theorem doClean_eq (r : Reactor ι) (fd : Nat) :
    r.doClean fd = if r.links.next (.head fd) = none then (true, r)
      else (r.cleaned fd).updateToDemultiplexer fd := rfl

theorem grown_doClean {r : Reactor ι} {L : Nat → List ι} (h : Ready r L) {fd : Nat}
    (hfd : fd < r.size) : Grown r (r.doClean fd).2 := by
  have hreg : Registered (r.cleaned fd) := h.registered.of_same rfl rfl rfl rfl
  have hsame : Grown r (r.cleaned fd) := .of_same rfl rfl
  rw [doClean_eq]
  split
  · exact .of_same rfl rfl
  · exact hsame.trans (grown_update hreg hfd)

theorem grown_cleanLoop {r : Reactor ι} {L : Nat → List ι} (h : Ready r L) {fds : List Nat}
    (hfds : ∀ fd ∈ fds, fd < r.size) (res : ErrCode) : Grown r (r.cleanLoop fds res).2 := by
  induction fds generalizing r L res with
  | nil => exact .of_same rfl rfl
  | cons fd fds ih =>
      have hgrown := grown_doClean h (hfds fd (by simp))
      refine hgrown.trans (ih (doClean_spec h fd).1 (fun fd' hfd' => ?_) _)
      exact (hfds fd' (by simp [hfd'])).trans_le hgrown.size

/-- **Every operation lets the table grow or leaves it.** -/
theorem grown_step {r : Reactor ι} {L : Nat → List ι} (h : Ready r L) (op : Op ι) :
    Grown r (r.step op) := by
  cases op with
  | addHandler target =>
      cases target with
      | none => exact .of_same rfl rfl
      | some i => exact grown_addHandler h i
  | updateHandler target =>
      cases target with
      | none => exact .of_same rfl rfl
      | some i => exact grown_updateHandler h i
  | removeHandler target =>
      cases target with
      | none => exact .of_same rfl rfl
      | some i => exact grown_removeHandler h i
  | clean fd =>
      rw [Reactor.step]
      split
      · exact grown_doClean h ‹fd < r.size›
      · exact .of_same rfl rfl
  | cleanUp => exact grown_cleanLoop h (fun fd hfd => List.mem_range.1 hfd) _
  | destroy i => exact .of_same rfl rfl
  | setFd i fd => exact .of_same rfl rfl
  | setEvents i events => exact .of_same rfl rfl
  | change i events =>
      have hset : Ready (r.setEvents i events) L :=
        ⟨h.lists.of_same rfl rfl, h.registered.of_same rfl rfl rfl rfl⟩
      have hsame : Grown r (r.setEvents i events) := .of_same rfl rfl
      exact hsame.trans (grown_updateHandler hset i)

/-! ## What is named lies in the table -/

structure Bounded (s : Loop ι) : Prop where
  ready : ∃ L, Ready s.reactor L
  beyond : ∀ fd ≥ s.reactor.size, s.reactor.events fd = Events.none
  got : ∀ e ∈ s.gotEvents, (s.reactor.access e.1).InBounds

theorem Bounded.step_reactor {s : Loop ι} (h : Bounded s) (op : Op ι) :
    Bounded { s with reactor := s.reactor.step op } := by
  obtain ⟨L, hready⟩ := h.ready
  have hgrown := grown_step hready op
  refine ⟨hready.step op, fun fd hfd => ?_, fun e he => ?_⟩
  · exact (hgrown.events fd hfd).trans (h.beyond fd (hgrown.size.trans hfd))
  · obtain ⟨hpos, hlt⟩ := h.got e he
    exact ⟨hpos, hlt.trans_le (by exact_mod_cast hgrown.size)⟩

omit [DecidableEq ι] [Fintype ι] in
/-- epoll holds descriptors of the table only. -/
theorem Bounded.lt_of_registered {s : Loop ι} (h : Bounded s) {fd : Nat}
    (hfd : (s.reactor.kernel fd).isSome = true) : fd < s.reactor.size := by
  obtain ⟨L, hready⟩ := h.ready
  by_contra hge
  exact (hready.registered.isSome_iff fd).1 hfd (h.beyond fd (by omega))

theorem Bounded.step {s : Loop ι} (h : Bounded s) (call : Call ι) : Bounded (s.step call) := by
  cases call with
  | addHandler target => exact h.step_reactor _
  | updateHandler target => exact h.step_reactor _
  | removeHandler target => exact h.step_reactor _
  | findHandler target => exact h
  | clean fd =>
      rw [Loop.step]
      split
      · exact h.step_reactor _
      · exact h
  | cleanUp => exact h.step_reactor _
  | destroy i => exact h.step_reactor _
  | setFd i fd => exact h.step_reactor _
  | setEvents i events => exact h.step_reactor _
  | polling events =>
      refine ⟨h.ready, h.beyond, fun e he => ?_⟩
      rcases List.mem_append.1 he with he | he
      · exact h.got e he
      · obtain ⟨e', he', rfl⟩ := List.mem_map.1 he
        have hlt := h.lt_of_registered (List.mem_filter.1 he').2
        refine ⟨Int.natCast_nonneg e'.1, ?_⟩
        show (e'.1 : Int) < (s.reactor.size : Int)
        exact_mod_cast hlt
  | handleEvents =>
      exact ⟨h.ready, h.beyond, fun e he => h.got e (List.mem_of_mem_tail he)⟩

/-! ## The accesses of a call -/

omit [DecidableEq ι] in
theorem eq_of_mem_updateAccesses {r : Reactor ι} {fd : Int} {a : Access}
    (ha : a ∈ r.updateToDemultiplexerAccesses fd) : a = r.access fd := by
  rw [updateToDemultiplexerAccesses] at ha
  split at ha
  · simpa using ha
  · split at ha
    · simpa using ha
    · simpa using ha

omit [DecidableEq ι] [Fintype ι] in
theorem hasHandlerAccesses_inBounds {r : Reactor ι} {i : ι} {a : Access}
    (ha : a ∈ r.hasHandlerAccesses i) : a.InBounds := by
  rw [hasHandlerAccesses] at ha
  split at ha
  · exact absurd ha (by simp)
  · rename_i hbad
    simp only [fdOf, Bool.or_eq_true, decide_eq_true_eq, not_or, Int.not_lt, ge_iff_le, Nat.not_le]
      at hbad
    obtain rfl : a = r.access (r.handlers i).fd := by simpa using ha
    exact ⟨hbad.1, by simp only [access]; omega⟩

theorem access_of_hasHandler {r : Reactor ι} {i : ι} (h : r.hasHandler i = true) :
    (r.access (r.handlers i).fd).InBounds := by
  obtain ⟨hpos, hlt⟩ := fdOf_lt_of_hasHandler h
  rw [fdOf] at hlt
  exact ⟨hpos, by simp only [access]; omega⟩

theorem addHandlerAccesses_inBounds {r : Reactor ι} (hsize : initFdNums ≤ r.size) {target : Option ι}
    {a : Access} (ha : a ∈ r.addHandlerAccesses target) : a.InBounds := by
  cases target with
  | none => exact absurd ha (by simp [addHandlerAccesses])
  | some i =>
      have hroom := (grown_insertNodeFront r hsize (r.fdOf i) i).2
      rw [addHandlerAccesses] at ha
      split at ha
      · exact absurd ha (by simp)
      · rename_i hfd
        split at ha
        · exact absurd ha (by simp)
        · have heq : a = (r.insertNodeFront (r.fdOf i) i).access (r.handlers i).fd := by
            simp only at ha
            split at ha
            · rcases List.mem_append.1 ha with ha | ha
              · simpa using ha
              · exact eq_of_mem_updateAccesses ha
            · simpa using ha
          have hpos : 0 ≤ (r.handlers i).fd := by
            simp only [badFd, Bool.or_eq_true, decide_eq_true_eq, not_or, Int.not_lt] at hfd
            exact hfd.1
          subst heq
          refine ⟨hpos, ?_⟩
          show (r.handlers i).fd < ((r.insertNodeFront (r.fdOf i) i).size : Int)
          have hcast : ((r.fdOf i : Nat) : Int) = (r.handlers i).fd := Int.toNat_of_nonneg hpos
          omega

/-- The list is searched first, and epoll is asked if the handler is in it. -/
theorem searchAccesses_inBounds {r r' : Reactor ι} (hsize : r'.size = r.size) {i : ι} {a : Access}
    (ha : a ∈ r.hasHandlerAccesses i ++
      if r.hasHandler i then r'.updateToDemultiplexerAccesses (r.handlers i).fd else []) :
    a.InBounds := by
  rcases List.mem_append.1 ha with ha | ha
  · exact hasHandlerAccesses_inBounds ha
  · split at ha
    · rename_i hlinked
      have hsame : r'.access (r.handlers i).fd = r.access (r.handlers i).fd := by
        rw [access, access, hsize]
      rw [eq_of_mem_updateAccesses ha, hsame]
      exact access_of_hasHandler hlinked
    · exact absurd ha (by simp)

theorem updateHandlerAccesses_inBounds {r : Reactor ι} (hsize : initFdNums ≤ r.size)
    {target : Option ι} {a : Access} (ha : a ∈ r.updateHandlerAccesses target) : a.InBounds := by
  cases target with
  | none => exact absurd ha (by simp [updateHandlerAccesses])
  | some i =>
      rw [updateHandlerAccesses] at ha
      split at ha
      · exact absurd ha (by simp)
      · split at ha
        · exact searchAccesses_inBounds rfl ha
        · exact addHandlerAccesses_inBounds hsize ha

theorem removeHandlerAccesses_inBounds {r : Reactor ι} {target : Option ι} {a : Access}
    (ha : a ∈ r.removeHandlerAccesses target) : a.InBounds := by
  cases target with
  | none => exact absurd ha (by simp [removeHandlerAccesses])
  | some i =>
      rw [removeHandlerAccesses] at ha
      split at ha
      · exact absurd ha (by simp)
      · have hsize : (r.removed i).size = r.size := rfl
        exact searchAccesses_inBounds hsize ha

omit [DecidableEq ι] [Fintype ι] in
theorem findHandlerAccesses_inBounds {r : Reactor ι} {target : Option ι} {a : Access}
    (ha : a ∈ r.findHandlerAccesses target) : a.InBounds := by
  cases target with
  | none => exact absurd ha (by simp [findHandlerAccesses])
  | some i =>
      rw [findHandlerAccesses] at ha
      split at ha
      · exact absurd ha (by simp)
      · exact hasHandlerAccesses_inBounds ha

/-- All accesses of `DoClean(fd)` are at `fd`, and there is one. -/
theorem forall_mem_doCleanAccesses {r : Reactor ι} {fd : Int} :
    (∀ a ∈ r.doCleanAccesses fd, a.InBounds) ↔ (r.access fd).InBounds := by
  refine ⟨fun h => h _ (by simp [doCleanAccesses]), fun h a ha => ?_⟩
  have heq : a = r.access fd := by
    rw [doCleanAccesses] at ha
    rcases List.mem_cons.1 ha with rfl | ha
    · rfl
    · split at ha
      · exact absurd ha (by simp)
      · rcases List.mem_cons.1 ha with rfl | ha
        · rfl
        · exact (eq_of_mem_updateAccesses ha).trans rfl
  rw [heq]
  exact h

theorem cleanLoopAccesses_inBounds {r : Reactor ι} {L : Nat → List ι} (h : Ready r L)
    {fds : List Nat} (hfds : ∀ fd ∈ fds, fd < r.size) {a : Access}
    (ha : a ∈ r.cleanLoopAccesses fds) : a.InBounds := by
  induction fds generalizing r L with
  | nil => exact absurd ha (by simp [cleanLoopAccesses])
  | cons fd fds ih =>
      have hfd := hfds fd (by simp)
      rcases List.mem_append.1 ha with ha | ha
      · refine forall_mem_doCleanAccesses.2 ⟨Int.natCast_nonneg fd, ?_⟩ a ha
        show (fd : Int) < (r.size : Int)
        exact_mod_cast hfd
      · refine ih (doClean_spec h fd).1 (fun fd' hfd' => ?_) ha
        exact (hfds fd' (by simp [hfd'])).trans_le (grown_doClean h hfd).size

/-- `Clean` is asked for a descriptor that it refuses, or that the table has an entry for. -/
def Call.InTable (s : Loop ι) : Call ι → Prop
  | .clean fd => fd = -1 ∨ 0 ≤ fd ∧ fd < s.reactor.size
  | _ => True

/-- **Of all calls only `Clean` can leave the table.** -/
theorem Bounded.accesses_iff {s : Loop ι} (h : Bounded s) (call : Call ι) :
    (∀ a ∈ s.accesses call, a.InBounds) ↔ call.InTable s := by
  obtain ⟨L, hready⟩ := h.ready
  have hsize := hready.lists.size_ge
  cases call with
  | addHandler target => exact iff_of_true (fun a ha => addHandlerAccesses_inBounds hsize ha) trivial
  | updateHandler target =>
      exact iff_of_true (fun a ha => updateHandlerAccesses_inBounds hsize ha) trivial
  | removeHandler target =>
      exact iff_of_true (fun a ha => removeHandlerAccesses_inBounds ha) trivial
  | findHandler target => exact iff_of_true (fun a ha => findHandlerAccesses_inBounds ha) trivial
  | clean fd =>
      show (∀ a ∈ s.reactor.cleanAccesses fd, a.InBounds) ↔ fd = -1 ∨ (s.reactor.access fd).InBounds
      rw [cleanAccesses]
      by_cases hfd : fd = -1
      · rw [if_pos hfd]
        exact iff_of_true (fun a ha => absurd ha (by simp)) (Or.inl hfd)
      · rw [if_neg hfd, forall_mem_doCleanAccesses]
        exact (or_iff_right hfd).symm
  | cleanUp =>
      refine iff_of_true (fun a ha => ?_) trivial
      exact cleanLoopAccesses_inBounds hready (fun fd hfd => List.mem_range.1 hfd) ha
  | destroy i => exact iff_of_true (fun a ha => absurd ha (by simp [Loop.accesses])) trivial
  | setFd i fd => exact iff_of_true (fun a ha => absurd ha (by simp [Loop.accesses])) trivial
  | setEvents i events => exact iff_of_true (fun a ha => absurd ha (by simp [Loop.accesses])) trivial
  | polling events => exact iff_of_true (fun a ha => absurd ha (by simp [Loop.accesses])) trivial
  | handleEvents =>
      refine iff_of_true (fun a ha => ?_) trivial
      rw [Loop.accesses] at ha
      split at ha
      · exact absurd ha (by simp)
      · rename_i e _ hgot
        have heq : a = s.reactor.access e.1 := by
          rw [handleEventsAccesses] at ha
          split at ha
          · simpa using ha
          · simpa using ha
        rw [heq]
        exact h.got e (by rw [hgot]; simp)

/-- A new reactor, and nothing brought by `Polling`. -/
def Loop.new (handlers : ι → Handler) (answers : Nat → Bool) : Loop ι :=
  ⟨Reactor.new handlers answers, []⟩

/-- **All accesses of a run are within the table exactly if `Clean` is only asked for entries of the
table**, or for `-1`. -/
theorem accesses_in_table_iff (handlers : ι → Handler) (answers : Nat → Bool)
    (calls : List (Call ι)) :
    (∀ a ∈ (Loop.new handlers answers).runAccesses calls, a.InBounds) ↔
      Along (fun s call => call.InTable s) Loop.step (Loop.new handlers answers) calls := by
  have hnew : Bounded (Loop.new handlers answers) :=
    ⟨⟨_, Lists.new _ _, Registered.new _ _⟩, fun _ _ => rfl, fun _ he => absurd he (by simp [Loop.new])⟩
  generalize Loop.new handlers answers = s at hnew
  induction calls generalizing s with
  | nil => exact iff_of_true (fun a ha => absurd ha (by simp [Loop.runAccesses])) trivial
  | cons call calls ih =>
      rw [Loop.runAccesses, List.forall_mem_append]
      exact and_congr (hnew.accesses_iff call) (ih _ (hnew.step call))

/-- **`Clean` outside the table.** The table of a new reactor has eight entries; `-1` is refused, and
for `9` an entry is taken that is not there. -/
theorem clean_outside_table :
    ¬ ∀ a ∈ (Loop.new (fun _ : Unit => ⟨3, Events.read, false⟩) fun _ => true).runAccesses
      [.clean (-1), .clean 9], a.InBounds := by
  intro h
  have hbad := h ⟨9, 8⟩ (by decide +kernel)
  exact absurd hbad.2 (by decide)

end CUtils.IOEvent
