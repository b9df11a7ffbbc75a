import CUtils.IOEvent.Lists

/-!
# The reactor and epoll

The stored union of masks, the set `interestFds_` and what epoll holds are changed together, by
`UpdateToDemultiplexer` alone, and only when `epoll_ctl` has succeeded. So they agree in every
state (`Registered`), also after failures, and every call asks for something that epoll can do.
-/

namespace CUtils.IOEvent

open LinkedList Reactor

variable {ι : Type}

structure Registered (r : Reactor ι) : Prop where
  kernel : ∀ fd, r.kernel fd =
    if r.events fd = Events.none then none else some (reactor2Epoll (r.events fd))
  interest : ∀ fd, fd ∈ r.interestFds ↔ (r.kernel fd).isSome = true
  calls : ∀ c ∈ r.calls, c.valid = true

theorem Registered.new (handlers : ι → Handler) (answers : Nat → Bool) :
    Registered (Reactor.new handlers answers) where
  kernel _ := rfl
  interest fd := by simp [Reactor.new]
  calls := by simp [Reactor.new]

theorem Registered.isSome_iff {r : Reactor ι} (h : Registered r) (fd : Nat) :
    (r.kernel fd).isSome = true ↔ r.events fd ≠ Events.none := by
  rw [h.kernel fd]
  by_cases h0 : r.events fd = Events.none
  · rw [if_pos h0]
    simp [h0]
  · rw [if_neg h0]
    simp [h0]

/-- Everything that does not go through epoll. -/
theorem Registered.of_same {r r' : Reactor ι} (h : Registered r) (hkernel : r'.kernel = r.kernel)
    (hevents : r'.events = r.events) (hinterest : r'.interestFds = r.interestFds)
    (hcalls : r'.calls = r.calls) : Registered r' where
  kernel := by rw [hkernel, hevents]; exact h.kernel
  interest := by rw [hkernel, hinterest]; exact h.interest
  calls := by rw [hcalls]; exact h.calls

/-- The operation chosen for a new mask is one epoll can do. -/
theorem Registered.ctlOp_valid {r : Reactor ι} (h : Registered r) (fd : Nat) (events : EventId) :
    CtlCall.valid ⟨r.ctlOp fd events, fd, (r.kernel fd).isSome⟩ = true := by
  unfold ctlOp
  by_cases hmem : fd ∈ r.interestFds
  · have hsome := (h.interest fd).1 hmem
    rw [if_pos hmem]
    by_cases h0 : events = Events.none
    · rw [if_pos h0]
      exact hsome
    · rw [if_neg h0]
      exact hsome
  · have hnone : (r.kernel fd).isSome = false := by
      rw [← Bool.not_eq_true]
      exact fun hsome => hmem ((h.interest fd).2 hsome)
    rw [if_neg hmem, hnone]
    rfl

/-- The reactor after a successful `epoll_ctl` for the mask `events`. -/
def Reactor.modified (r : Reactor ι) (fd : Nat) (events : EventId) : Reactor ι :=
  { r with
    answers := fun n => r.answers (n + 1)
    calls := ⟨r.ctlOp fd events, fd, (r.kernel fd).isSome⟩ :: r.calls
    kernel := Function.update r.kernel fd
      (if events = Events.none then none else some (reactor2Epoll events))
    interestFds :=
      if events = Events.none then r.interestFds.erase fd else insert fd r.interestFds
    events := Function.update r.events fd events }

/-- The reactor after a refused one. -/
def Reactor.refused (r : Reactor ι) (fd : Nat) (events : EventId) : Reactor ι :=
  { r with
    answers := fun n => r.answers (n + 1)
    calls := ⟨r.ctlOp fd events, fd, (r.kernel fd).isSome⟩ :: r.calls }

/-- What a call for a mask other than the stored one does. A descriptor without a registration
has the empty mask stored, so it is never removed. -/
theorem Registered.run_modifyEvents {r : Reactor ι} (h : Registered r) {fd : Nat} {events : EventId}
    (hne : events ≠ r.events fd) :
    (let m := r.modifyEvents fd events
     if !m.1 then (false, m.2)
     else (true, { m.2 with events := Function.update m.2.events fd events })) =
      if r.answers 0 = true then (true, r.modified fd events) else (false, r.refused fd events) := by
  have hvalid := h.ctlOp_valid fd events
  by_cases hans : r.answers 0 = true
  · rw [if_pos hans]
    simp only [modifyEvents, operateEpoll, epollCtl, hans, hvalid, Bool.and_self, if_true,
      Bool.not_true, Bool.false_eq_true, if_false]
    unfold Reactor.modified ctlOp
    by_cases hmem : fd ∈ r.interestFds
    · simp only [hmem, if_true]
      by_cases h0 : events = Events.none
      · simp only [h0, if_true, Bool.not_true, Bool.false_eq_true, if_false]
      · simp only [h0, if_false, Bool.not_true, Bool.false_eq_true, Finset.insert_eq_of_mem hmem]
    · have hstored : r.events fd = Events.none := by
        by_contra hstored
        exact hmem ((h.interest fd).2 ((h.isSome_iff fd).2 hstored))
      have h0 : events ≠ Events.none := fun h0 => hne (h0.trans hstored.symm)
      simp only [hmem, if_false, h0, Bool.not_true, Bool.false_eq_true]
  · rw [if_neg hans]
    simp only [modifyEvents, operateEpoll, epollCtl, hans, Bool.false_and, Bool.false_eq_true,
      if_false, Bool.not_false, if_true]
    rfl

theorem Registered.modified {r : Reactor ι} (h : Registered r) (fd : Nat) (events : EventId) :
    Registered (r.modified fd events) where
  kernel fd' := by
    show Function.update r.kernel fd _ fd' = if Function.update r.events fd events fd' = Events.none
      then none else some (reactor2Epoll (Function.update r.events fd events fd'))
    by_cases hfd : fd' = fd
    · subst hfd
      rw [Function.update_self, Function.update_self]
    · rw [Function.update_of_ne hfd, Function.update_of_ne hfd]
      exact h.kernel fd'
  interest fd' := by
    show fd' ∈ (if events = Events.none then r.interestFds.erase fd else insert fd r.interestFds) ↔
      (Function.update r.kernel fd (if events = Events.none then none else some _) fd').isSome = true
    have hother := h.interest fd'
    by_cases hfd : fd' = fd
    · subst hfd
      rw [Function.update_self]
      by_cases h0 : events = Events.none
      · simp [h0]
      · simp [h0]
    · rw [Function.update_of_ne hfd, ← hother]
      by_cases h0 : events = Events.none
      · simp [h0, hfd]
      · simp [h0, hfd]
  calls c hc := by
    rcases List.mem_cons.1 hc with rfl | hc
    · exact h.ctlOp_valid fd events
    · exact h.calls c hc

theorem Registered.refused {r : Reactor ι} (h : Registered r) (fd : Nat) (events : EventId) :
    Registered (r.refused fd events) where
  kernel := h.kernel
  interest := h.interest
  calls c hc := by
    rcases List.mem_cons.1 hc with rfl | hc
    · exact h.ctlOp_valid fd events
    · exact h.calls c hc

variable [Fintype ι]

theorem Registered.run_updateToDemultiplexer {r : Reactor ι} (h : Registered r) (fd : Nat) :
    r.updateToDemultiplexer fd =
      if r.emask fd = r.events fd then (true, r)
      else if r.answers 0 = true then (true, r.modified fd (r.emask fd))
      else (false, r.refused fd (r.emask fd)) := by
  by_cases hsame : r.emask fd = r.events fd
  · rw [updateToDemultiplexer, if_pos hsame, if_pos hsame]
  · rw [if_neg hsame, ← h.run_modifyEvents hsame, updateToDemultiplexer, if_neg hsame]

/-- What an update leaves alone. -/
structure Updated (r r' : Reactor ι) : Prop where
  links : r'.links = r.links
  handlers : r'.handlers = r.handlers
  count : r'.count = r.count
  size : r'.size = r.size
  registered : Registered r'
  granted : (∀ n, r.answers n = true) → ∀ n, r'.answers n = true

/-- **What `UpdateToDemultiplexer` does.** -/
theorem Registered.update {r : Reactor ι} (h : Registered r) (fd : Nat) :
    Updated r (r.updateToDemultiplexer fd).2 ∧
      ((r.updateToDemultiplexer fd).1 = true ↔ r.emask fd = r.events fd ∨ r.answers 0 = true) ∧
      ((r.updateToDemultiplexer fd).1 = true →
        (r.updateToDemultiplexer fd).2.events = Function.update r.events fd (r.emask fd)) := by
  rw [h.run_updateToDemultiplexer]
  by_cases hsame : r.emask fd = r.events fd
  · rw [if_pos hsame]
    refine ⟨⟨rfl, rfl, rfl, rfl, h, id⟩, by simp [hsame], fun _ => ?_⟩
    rw [hsame, Function.update_eq_self]
  · rw [if_neg hsame]
    by_cases hans : r.answers 0 = true
    · rw [if_pos hans]
      exact ⟨⟨rfl, rfl, rfl, rfl, h.modified fd _, fun hall n => hall (n + 1)⟩, by simp [hans],
        fun _ => rfl⟩
    · rw [if_neg hans]
      exact ⟨⟨rfl, rfl, rfl, rfl, h.refused fd _, fun hall n => hall (n + 1)⟩, by simp [hans, hsame],
        fun hf => absurd hf (by simp)⟩

end CUtils.IOEvent
