import CUtils.Timer.Demultiplexer
import CUtils.Lib.StateRun

/-!
# Registration and event masks

The mask of a handler should decide about its registration: a handler is in the map, and the kernel
has its descriptor, exactly while its mask is not `NONE_EVENT` (`FollowsMask`). The demultiplexer
goes by the map instead, and the two part when a mask that is empty is emptied once more
(`Op.Enabled`).

`Told` is everything that setting a mask changes, and the only place where `UpdateEventHandler` is
opened. `Sound` holds in every run; what it says about descriptors lets one handler be looked at
without the others.
-/

namespace CUtils.Reactors

open StateRun

/-! ## What one call changes -/

/-- Descriptors are distinct, and what the tables refer to lives. -/
structure Linked (r : Reactor) : Prop where
  distinct : ∀ a b h k, r.handlers a = some h → r.handlers b = some k → h.fd = k.fd → a = b
  mapped : ∀ fd a, r.eventHandlers fd = some a → ∃ h, r.handlers a = some h ∧ h.fd = fd
  opened : ∀ fd, r.registered fd ≠ none → ∃ a h, r.handlers a = some h ∧ h.fd = fd
  held : ∀ a ∈ r.held, r.handlers a ≠ none
  timers : ∀ a ∈ r.timerEventHandlers, r.handlers a ≠ none
  nodup : r.timerEventHandlers.Nodup

/-- What lives is referred to. -/
structure Sound (r : Reactor) : Prop extends Linked r where
  kept : ∀ a h, r.handlers a = some h → r.referenced a h

variable {r r' : Reactor} {a b : Addr} {h k : EventHandler} {events : BitVec 32}

/-- The handler at `a` has set its mask: everything that `UpdateEventHandler` does. -/
structure Told (r r' : Reactor) (a : Addr) (h : EventHandler) (events : BitVec 32) : Prop where
  handlers : r'.handlers = Function.update r.handlers a (some { h with events })
  held : r'.held = r.held
  timers : r'.timerEventHandlers = r.timerEventHandlers
  others : ∀ fd, fd ≠ h.fd →
    r'.eventHandlers fd = r.eventHandlers fd ∧ r'.registered fd = r.registered fd
  added : r.eventHandlers h.fd = none → r'.eventHandlers h.fd = some a ∧ r'.registered h.fd ≠ none
  deleted : r.eventHandlers h.fd ≠ none → events = noneEvent →
    r'.eventHandlers h.fd = none ∧ r'.registered h.fd = none
  modified : r.eventHandlers h.fd = some a → events ≠ noneEvent →
    r'.eventHandlers h.fd = some a ∧ (r.registered h.fd ≠ none → r'.registered h.fd ≠ none)

theorem told_setEvents (r : Reactor) (a : Addr) (h : EventHandler) (events : BitVec 32) :
    Told r (r.setEvents a h events) a h events := by
  unfold Reactor.setEvents Reactor.updateEventHandler
  cases hmap : r.eventHandlers h.fd with
  | none =>
      unfold Reactor.ctlAdd
      cases hreg : r.registered h.fd with
      | none =>
          exact ⟨rfl, rfl, rfl, fun fd hfd => ⟨Function.update_of_ne hfd _ _,
            Function.update_of_ne hfd _ _⟩, fun _ => ⟨Function.update_self _ _ _, by simp⟩,
            fun hne => absurd hmap hne, fun heq => nomatch hmap.symm.trans heq⟩
      | some mask =>
          exact ⟨rfl, rfl, rfl, fun fd hfd => ⟨Function.update_of_ne hfd _ _, rfl⟩,
            fun _ => ⟨Function.update_self _ _ _, by simp [hreg]⟩,
            fun hne => absurd hmap hne, fun heq => nomatch hmap.symm.trans heq⟩
  | some b =>
      have habsent : r.eventHandlers h.fd ≠ none := by
        rw [hmap]
        exact nofun
      dsimp only
      by_cases hempty : events = noneEvent
      · rw [if_pos hempty]
        exact ⟨rfl, rfl, rfl, fun fd hfd => ⟨Function.update_of_ne hfd _ _,
          Function.update_of_ne hfd _ _⟩, fun hnone => absurd hnone habsent,
          fun _ _ => ⟨Function.update_self _ _ _, Function.update_self _ _ _⟩,
          fun _ hne => absurd hempty hne⟩
      · rw [if_neg hempty]
        by_cases hab : a = b
        · rw [if_neg (not_not.2 hab)]
          unfold Reactor.ctlMod
          cases hreg : r.registered h.fd with
          | none =>
                  exact ⟨rfl, rfl, rfl, fun _ _ => ⟨rfl, rfl⟩, fun hnone => absurd hnone habsent,
                fun _ heq => absurd heq hempty, fun heq _ => ⟨heq, fun hne => absurd hreg hne⟩⟩
          | some mask =>
                  exact ⟨rfl, rfl, rfl, fun fd hfd => ⟨rfl, Function.update_of_ne hfd _ _⟩,
                fun hnone => absurd hnone habsent, fun _ heq => absurd heq hempty,
                fun heq _ => ⟨heq, fun _ => by simp⟩⟩
        · rw [if_pos hab]
          exact ⟨rfl, rfl, rfl, fun _ _ => ⟨rfl, rfl⟩, fun hnone => absurd hnone habsent,
            fun _ heq => absurd heq hempty,
            fun heq => absurd (Option.some.inj (heq.symm.trans hmap)) hab⟩

theorem Told.handler (ht : Told r r' a h events) (ha : r.handlers a = some h)
    (hb : r'.handlers b = some k) : ∃ k', r.handlers b = some k' ∧ k'.fd = k.fd := by
  rw [ht.handlers] at hb
  by_cases hba : b = a
  · rw [hba, Function.update_self] at hb
    obtain rfl := Option.some.inj hb
    exact ⟨h, hba ▸ ha, rfl⟩
  · rw [Function.update_of_ne hba] at hb
    exact ⟨k, hb, rfl⟩

theorem Told.handler_of (ht : Told r r' a h events) (ha : r.handlers a = some h)
    (hb : r.handlers b = some k) : ∃ k', r'.handlers b = some k' ∧ k'.fd = k.fd := by
  rw [ht.handlers]
  by_cases hba : b = a
  · rw [hba, ha] at hb
    obtain rfl := Option.some.inj hb
    exact ⟨{ h with events }, by rw [hba, Function.update_self], rfl⟩
  · exact ⟨k, by rw [Function.update_of_ne hba, hb], rfl⟩

theorem Told.live (ht : Told r r' a h events) (hb : r.handlers b ≠ none) : r'.handlers b ≠ none := by
  rw [ht.handlers, Function.update_apply]
  split
  · exact nofun
  · exact hb

theorem Sound.map_self (hs : Sound r) (ha : r.handlers a = some h) :
    r.eventHandlers h.fd = none ∨ r.eventHandlers h.fd = some a := by
  cases hmap : r.eventHandlers h.fd with
  | none => exact Or.inl rfl
  | some b =>
      obtain ⟨k, hb, hfd⟩ := hs.mapped _ _ hmap
      rw [hs.distinct a b h k ha hb hfd.symm]
      exact Or.inr rfl

theorem Sound.told (hs : Sound r) (ha : r.handlers a = some h) (ht : Told r r' a h events)
    (hheld : a ∈ r.held ∨ a ∈ r.timerEventHandlers) : Sound r' := by
  refine ⟨⟨fun b c k l hb hc hfd => ?_, fun fd b hmap => ?_, fun fd hopen => ?_, fun b hb => ?_,
    fun b hb => ?_, by rw [ht.timers]; exact hs.nodup⟩, fun b k hb => ?_⟩
  · obtain ⟨k', hb', hk⟩ := ht.handler ha hb
    obtain ⟨l', hc', hl⟩ := ht.handler ha hc
    exact hs.distinct b c k' l' hb' hc' (by rw [hk, hl, hfd])
  · by_cases hfd : fd = h.fd
    · have hba : b = a := by
        rw [hfd] at hmap
        rcases hs.map_self ha with hnone | hsome
        · rw [(ht.added hnone).1] at hmap
          exact (Option.some.inj hmap).symm
        · by_cases hempty : events = noneEvent
          · rw [(ht.deleted (by rw [hsome]; exact nofun) hempty).1] at hmap
            cases hmap
          · rw [(ht.modified hsome hempty).1] at hmap
            exact (Option.some.inj hmap).symm
      obtain ⟨k', hk', hkfd⟩ := ht.handler_of ha ha
      exact ⟨k', hba ▸ hk', hkfd.trans hfd.symm⟩
    · rw [(ht.others fd hfd).1] at hmap
      obtain ⟨k, hk, hkfd⟩ := hs.mapped fd b hmap
      obtain ⟨k', hk', hkfd'⟩ := ht.handler_of ha hk
      exact ⟨k', hk', hkfd'.trans hkfd⟩
  · by_cases hfd : fd = h.fd
    · obtain ⟨k', hk', hkfd⟩ := ht.handler_of ha ha
      exact ⟨a, k', hk', hkfd.trans hfd.symm⟩
    · rw [(ht.others fd hfd).2] at hopen
      obtain ⟨b, k, hk, hkfd⟩ := hs.opened fd hopen
      obtain ⟨k', hk', hkfd'⟩ := ht.handler_of ha hk
      exact ⟨b, k', hk', hkfd'.trans hkfd⟩
  · rw [ht.held] at hb
    exact ht.live (hs.held b hb)
  · rw [ht.timers] at hb
    exact ht.live (hs.timers b hb)
  · unfold Reactor.referenced
    rw [ht.held, ht.timers]
    by_cases hba : b = a
    · rw [hba]
      exact hheld.imp_right Or.inl
    · rw [ht.handlers, Function.update_of_ne hba] at hb
      have hfd : k.fd ≠ h.fd := fun heq => hba (hs.distinct b a k h hb ha heq)
      rw [(ht.others _ hfd).1]
      exact hs.kept b k hb

/-! ## The mask and the tables -/

/-- The handler at `a`, if there is one, is in the map and its descriptor registered exactly while
its mask is not empty. -/
def InStep (r : Reactor) (a : Addr) : Prop := ∀ h, r.handlers a = some h →
  (r.eventHandlers h.fd = some a ↔ h.events ≠ noneEvent) ∧
    (r.registered h.fd ≠ none ↔ h.events ≠ noneEvent)

theorem InStep.congr (hhandler : r'.handlers a = r.handlers a)
    (htables : ∀ h, r.handlers a = some h →
      r'.eventHandlers h.fd = r.eventHandlers h.fd ∧ r'.registered h.fd = r.registered h.fd) :
    InStep r' a ↔ InStep r a := by
  unfold InStep
  rw [hhandler]
  refine forall_congr' fun h => imp_congr_right fun ha => ?_
  rw [(htables h ha).1, (htables h ha).2]

/-- A handler that sets its mask does not touch another. -/
theorem Told.inStep_other (hs : Sound r) (ha : r.handlers a = some h) (ht : Told r r' a h events)
    (hba : b ≠ a) : InStep r' b ↔ InStep r b := by
  have hhandler : r'.handlers b = r.handlers b := by rw [ht.handlers, Function.update_of_ne hba]
  exact InStep.congr hhandler fun k hb =>
    ht.others k.fd fun heq => hba (hs.distinct b a k h hb ha heq)

/-- `EnableRead` -/
theorem Told.inStep_enabled (hs : Sound r) (ha : r.handlers a = some h) (ht : Told r r' a h events)
    (hevents : events ≠ noneEvent) (hin : InStep r a) : InStep r' a := by
  obtain ⟨hmap, hreg⟩ := hin h ha
  intro k hk
  rw [ht.handlers, Function.update_self] at hk
  obtain rfl := Option.some.inj hk
  rcases hs.map_self ha with hnone | hsome
  · obtain ⟨hmap', hreg'⟩ := ht.added hnone
    exact ⟨iff_of_true hmap' hevents, iff_of_true hreg' hevents⟩
  · obtain ⟨hmap', hreg'⟩ := ht.modified hsome hevents
    exact ⟨iff_of_true hmap' hevents, iff_of_true (hreg' (hreg.2 (hmap.1 hsome))) hevents⟩

/-- `DisableAll` -/
theorem Told.inStep_disabled (hs : Sound r) (ha : r.handlers a = some h)
    (ht : Told r r' a h noneEvent) (hin : InStep r a) : InStep r' a ↔ h.events ≠ noneEvent := by
  obtain ⟨hmap, -⟩ := hin h ha
  have hself : r'.handlers a = some { h with events := noneEvent } := by
    rw [ht.handlers, Function.update_self]
  constructor
  · intro hin' hempty
    -- a handler that is not in the map is added, whatever its mask
    have habsent : r.eventHandlers h.fd = none :=
      (hs.map_self ha).resolve_right fun hsome => hmap.1 hsome hempty
    exact ((hin' _ hself).1.1 (ht.added habsent).1) rfl
  · intro hne k hk
    obtain rfl := Option.some.inj (hself.symm.trans hk)
    have hpresent : r.eventHandlers h.fd ≠ none := by
      rw [hmap.2 hne]
      exact nofun
    obtain ⟨hmap', hreg'⟩ := ht.deleted hpresent rfl
    refine ⟨iff_of_false ?_ fun hne => hne rfl, iff_of_false (not_not.2 hreg') fun hne => hne rfl⟩
    show r'.eventHandlers h.fd ≠ some a
    rw [hmap']
    exact nofun

/-! ## The operations -/

theorem or_readEvent (events : BitVec 32) : events ||| readEvent ≠ noneEvent := by
  intro heq
  have hbit := congrArg (BitVec.getLsbD · 0) heq
  simp [readEvent, noneEvent] at hbit

theorem Sound.enableRead (hs : Sound r) (ha : a ∈ r.held) : Sound (r.enableRead a) := by
  unfold Reactor.enableRead
  split
  · exact hs
  · rename_i h hh
    exact hs.told hh (told_setEvents r a h _) (Or.inl ha)

theorem Sound.disableAll (hs : Sound r) (ha : a ∈ r.held ∨ a ∈ r.timerEventHandlers) :
    Sound (r.disableAll a) := by
  unfold Reactor.disableAll
  split
  · exact hs
  · rename_i h hh
    exact hs.told hh (told_setEvents r a h _) ha

theorem disableAll_timers (r : Reactor) (a : Addr) :
    (r.disableAll a).timerEventHandlers = r.timerEventHandlers := by
  unfold Reactor.disableAll
  split
  · rfl
  · exact (told_setEvents r a _ _).timers

theorem InStep.enableRead (hs : Sound r) (h : ∀ b, InStep r b) (b : Addr) :
    InStep (r.enableRead a) b := by
  unfold Reactor.enableRead
  split
  · exact h b
  · rename_i k hk
    have ht := told_setEvents r a k (k.events ||| readEvent)
    by_cases hba : b = a
    · rw [hba]
      exact ht.inStep_enabled hs hk (or_readEvent _) (h a)
    · exact (ht.inStep_other hs hk hba).2 (h b)

theorem inStep_disableAll_other (hs : Sound r) (hba : b ≠ a) :
    InStep (r.disableAll a) b ↔ InStep r b := by
  unfold Reactor.disableAll
  split
  · exact Iff.rfl
  · rename_i k hk
    exact (told_setEvents r a k noneEvent).inStep_other hs hk hba

theorem disableAll_handlers_other (hba : b ≠ a) :
    (r.disableAll a).handlers b = r.handlers b := by
  unfold Reactor.disableAll
  split
  · rfl
  · rw [(told_setEvents r a _ _).handlers, Function.update_of_ne hba]

/-- The mask of the handler at `a`, if there is one, is not empty. -/
def EnabledAt (r : Reactor) (a : Addr) : Prop := ∀ h, r.handlers a = some h → h.events ≠ noneEvent

theorem inStep_disableAll_self (hs : Sound r) (hin : InStep r a) :
    InStep (r.disableAll a) a ↔ EnabledAt r a := by
  cases ha : r.handlers a with
  | none =>
      rw [Reactor.disableAll, ha]
      exact iff_of_true hin fun h hh => nomatch ha.symm.trans hh
  | some h =>
      rw [Reactor.disableAll, ha]
      refine ((told_setEvents r a h noneEvent).inStep_disabled hs ha hin).trans ?_
      constructor
      · intro hne k hk
        obtain rfl := Option.some.inj (ha.symm.trans hk)
        exact hne
      · exact fun henabled => henabled h ha

theorem inStep_disableAll_iff (hs : Sound r) (hin : ∀ b, InStep r b) :
    (∀ b, InStep (r.disableAll a) b) ↔ EnabledAt r a := by
  constructor
  · exact fun hall => (inStep_disableAll_self hs (hin a)).1 (hall a)
  · intro henabled b
    by_cases hba : b = a
    · rw [hba]
      exact (inStep_disableAll_self hs (hin a)).2 henabled
    · exact (inStep_disableAll_other hs hba).2 (hin b)

/-! ### `CleanUp` -/

theorem disableAll_fold (l : List Addr) (hs : Sound r) (hl : ∀ a ∈ l, a ∈ r.timerEventHandlers) :
    Sound (l.foldl Reactor.disableAll r) ∧
      ∀ b, b ∉ l → (InStep (l.foldl Reactor.disableAll r) b ↔ InStep r b) := by
  induction l generalizing r with
  | nil => exact ⟨hs, fun b _ => Iff.rfl⟩
  | cons a l ih =>
      have hstep := hs.disableAll (Or.inr (hl a List.mem_cons_self))
      have htimers : ∀ b ∈ l, b ∈ (r.disableAll a).timerEventHandlers := by
        intro b hb
        rw [disableAll_timers]
        exact hl b (List.mem_cons_of_mem a hb)
      obtain ⟨hsound, hother⟩ := ih hstep htimers
      refine ⟨hsound, fun b hb => ?_⟩
      obtain ⟨hba, hbl⟩ := not_or.1 (mt List.mem_cons.2 hb)
      exact (hother b hbl).trans (inStep_disableAll_other hs hba)

/-- A handler is disabled once; what the others do makes no difference to it. -/
theorem inStep_fold_mem {l : List Addr} (hs : Sound r) (hl : ∀ a ∈ l, a ∈ r.timerEventHandlers)
    (hnodup : l.Nodup) (hb : b ∈ l) (hin : InStep r b) :
    InStep (l.foldl Reactor.disableAll r) b ↔ EnabledAt r b := by
  induction l generalizing r with
  | nil => cases hb
  | cons a l ih =>
      obtain ⟨hal, hnodup⟩ := List.nodup_cons.1 hnodup
      have hstep := hs.disableAll (Or.inr (hl a List.mem_cons_self))
      have htimers : ∀ b ∈ l, b ∈ (r.disableAll a).timerEventHandlers := by
        intro b hb
        rw [disableAll_timers]
        exact hl b (List.mem_cons_of_mem a hb)
      by_cases hba : b = a
      · rw [hba] at hin ⊢
        exact ((disableAll_fold l hstep htimers).2 a hal).trans (inStep_disableAll_self hs hin)
      · have hmem := (List.mem_cons.1 hb).resolve_left hba
        refine (ih hstep htimers hnodup hmem ((inStep_disableAll_other hs hba).2 hin)).trans ?_
        unfold EnabledAt
        rw [disableAll_handlers_other hba]

theorem inStep_cleanUp_iff (hs : Sound r) (hin : ∀ b, InStep r b) :
    (∀ b, InStep r.cleanUp b) ↔ ∀ a ∈ r.timerEventHandlers, EnabledAt r a := by
  constructor
  · intro hall a ha
    exact (inStep_fold_mem hs (fun _ h => h) hs.nodup ha (hin a)).1 (hall a)
  · intro henabled b
    by_cases hb : b ∈ r.timerEventHandlers
    · exact (inStep_fold_mem hs (fun _ h => h) hs.nodup hb (hin b)).2 (henabled b hb)
    · exact ((disableAll_fold _ hs fun _ h => h).2 b hb).2 (hin b)

/-! ### References that go -/

/-- The destructor takes nothing from another handler. -/
theorem Linked.collect (hl : Linked r)
    (hkept : ∀ b k, b ≠ a → r.handlers b = some k → r.referenced b k) : Sound (r.collect a) := by
  unfold Reactor.collect
  split
  · rename_i ha
    refine ⟨hl, fun b k hb => hkept b k ?_ hb⟩
    rintro rfl
    cases ha.symm.trans hb
  · rename_i h ha
    by_cases href : r.referenced a h
    · rw [if_pos href]
      refine ⟨hl, fun b k hb => ?_⟩
      by_cases hba : b = a
      · rw [hba, ha] at hb
        obtain rfl := Option.some.inj hb
        rwa [hba]
      · exact hkept b k hba hb
    · rw [if_neg href]
      have hlive : ∀ {b k}, Function.update r.handlers a none b = some k →
          b ≠ a ∧ r.handlers b = some k := by
        intro b k hb
        by_cases hba : b = a
        · rw [hba, Function.update_self] at hb
          cases hb
        · rw [Function.update_of_ne hba] at hb
          exact ⟨hba, hb⟩
      have hother : ∀ {b}, b ≠ a → Function.update r.handlers a none b = r.handlers b :=
        fun hba => Function.update_of_ne hba _ _
      refine ⟨⟨fun b c k l hb hc => hl.distinct b c k l (hlive hb).2 (hlive hc).2, fun fd b hmap => ?_,
        fun fd hopen => ?_, fun b hb => ?_, fun b hb => ?_, hl.nodup⟩,
        fun b k hb => hkept b k (hlive hb).1 (hlive hb).2⟩
      · obtain ⟨k, hb, hfd⟩ := hl.mapped fd b hmap
        refine ⟨k, (hother ?_).trans hb, hfd⟩
        rintro rfl
        obtain rfl := Option.some.inj (ha.symm.trans hb)
        rw [← hfd] at hmap
        exact href (Or.inr (Or.inr hmap))
      · have hfd : fd ≠ h.fd := by
          rintro rfl
          exact hopen (Function.update_self _ _ _)
        change Function.update r.registered h.fd none fd ≠ none at hopen
        rw [Function.update_of_ne hfd] at hopen
        obtain ⟨b, k, hb, hbfd⟩ := hl.opened fd hopen
        refine ⟨b, k, (hother ?_).trans hb, hbfd⟩
        rintro rfl
        obtain rfl := Option.some.inj (ha.symm.trans hb)
        exact hfd hbfd.symm
      · have hba : b ≠ a := fun heq => href (Or.inl (heq ▸ hb))
        exact fun hnone => hl.held b hb ((hother hba).symm.trans hnone)
      · have hba : b ≠ a := fun heq => href (Or.inr (Or.inl (heq ▸ hb)))
        exact fun hnone => hl.timers b hb ((hother hba).symm.trans hnone)

theorem inStep_collect_other (hl : Linked r) (hba : b ≠ a) :
    InStep (r.collect a) b ↔ InStep r b := by
  unfold Reactor.collect
  split
  · exact Iff.rfl
  · rename_i h ha
    split
    · exact Iff.rfl
    · exact InStep.congr (Function.update_of_ne hba _ _) fun k hb =>
        ⟨rfl, Function.update_of_ne (fun heq => hba (hl.distinct b a k h hb ha heq)) _ _⟩

theorem inStep_collect_self (hin : InStep r a) : InStep (r.collect a) a := by
  unfold Reactor.collect
  split
  · exact hin
  · split
    · exact hin
    · intro k hk
      change Function.update r.handlers a none a = some k at hk
      rw [Function.update_self] at hk
      cases hk

theorem InStep.collect (hl : Linked r) (hin : ∀ b, InStep r b) (b : Addr) :
    InStep (r.collect a) b := by
  by_cases hba : b = a
  · rw [hba]
    exact inStep_collect_self (hin a)
  · exact (inStep_collect_other hl hba).2 (hin b)

theorem Sound.linked_released (hs : Sound r) (a : Addr) :
    Linked { r with held := r.held.erase a } :=
  ⟨hs.distinct, hs.mapped, hs.opened, fun b hb => hs.held b (Finset.mem_of_mem_erase hb), hs.timers,
    hs.nodup⟩

theorem Sound.release (hs : Sound r) (a : Addr) : Sound (r.release a) := by
  refine (hs.linked_released a).collect fun b k hba hb => ?_
  exact (hs.kept b k hb).imp_left fun hheld => Finset.mem_erase.2 ⟨hba, hheld⟩

theorem InStep.release (hs : Sound r) (hin : ∀ b, InStep r b) (b : Addr) : InStep (r.release a) b :=
  InStep.collect (hs.linked_released a) hin b

/-! ### New handlers -/

theorem Sound.make (hs : Sound r) {fd : Nat} (ha : r.handlers a = none)
    (hfd : ∀ b h, r.handlers b = some h → h.fd ≠ fd) : Sound (r.make a fd) := by
  have hne : ∀ {b k}, r.handlers b = some k → b ≠ a := by
    rintro b k hb rfl
    cases ha.symm.trans hb
  have hold : ∀ {b k}, r.handlers b = some k →
      Function.update r.handlers a (some ⟨fd, noneEvent⟩) b = some k := by
    intro b k hb
    rwa [Function.update_of_ne (hne hb)]
  have hnew : ∀ {b k}, Function.update r.handlers a (some ⟨fd, noneEvent⟩) b = some k →
      b = a ∧ k.fd = fd ∨ r.handlers b = some k := by
    intro b k hb
    by_cases hba : b = a
    · rw [hba, Function.update_self] at hb
      obtain rfl := Option.some.inj hb
      exact Or.inl ⟨hba, rfl⟩
    · rw [Function.update_of_ne hba] at hb
      exact Or.inr hb
  have hlive : ∀ {b}, b = a ∨ r.handlers b ≠ none →
      Function.update r.handlers a (some ⟨fd, noneEvent⟩) b ≠ none := by
    intro b hb
    rw [Function.update_apply]
    split
    · exact nofun
    · rename_i hba
      exact hb.resolve_left hba
  refine ⟨⟨fun b c k l hb hc heq => ?_, fun fd' b hmap => ?_, fun fd' hopen => ?_, fun b hb => ?_,
    fun b hb => hlive (Or.inr (hs.timers b hb)), hs.nodup⟩, fun b k hb => ?_⟩
  · rcases hnew hb with ⟨rfl, hk⟩ | hb'
    · rcases hnew hc with ⟨rfl, -⟩ | hc'
      · rfl
      · exact absurd (heq.symm.trans hk) (hfd c l hc')
    · rcases hnew hc with ⟨rfl, hl⟩ | hc'
      · exact absurd (heq.trans hl) (hfd b k hb')
      · exact hs.distinct b c k l hb' hc' heq
  · obtain ⟨k, hb, hk⟩ := hs.mapped fd' b hmap
    exact ⟨k, hold hb, hk⟩
  · obtain ⟨b, k, hb, hk⟩ := hs.opened fd' hopen
    exact ⟨b, k, hold hb, hk⟩
  · exact hlive ((Finset.mem_insert.1 hb).imp_right (hs.held b))
  · rcases hnew hb with ⟨rfl, -⟩ | hb'
    · exact Or.inl (Finset.mem_insert_self _ _)
    · exact (hs.kept b k hb').imp_left fun hheld => Finset.mem_insert_of_mem hheld

theorem InStep.make (hs : Sound r) {fd : Nat} (hfd : ∀ b h, r.handlers b = some h → h.fd ≠ fd)
    (hin : ∀ b, InStep r b) (b : Addr) : InStep (r.make a fd) b := by
  by_cases hba : b = a
  · intro k hk
    change Function.update r.handlers a (some ⟨fd, noneEvent⟩) b = some k at hk
    rw [hba, Function.update_self] at hk
    obtain rfl := Option.some.inj hk
    refine ⟨iff_of_false (fun hmap => ?_) fun hne => hne rfl,
      iff_of_false (fun hopen => ?_) fun hne => hne rfl⟩
    · obtain ⟨h, hh, heq⟩ := hs.mapped fd b hmap
      exact hfd b h hh heq
    · obtain ⟨c, h, hh, heq⟩ := hs.opened fd hopen
      exact hfd c h hh heq
  · have hhandler : (r.make a fd).handlers b = r.handlers b := Function.update_of_ne hba _ _
    exact (InStep.congr hhandler fun _ _ => ⟨rfl, rfl⟩).2 (hin b)

/-! ### Timers -/

theorem enableRead_timers (r : Reactor) (a : Addr) :
    (r.enableRead a).timerEventHandlers = r.timerEventHandlers := by
  unfold Reactor.enableRead
  split
  · rfl
  · exact (told_setEvents r a _ _).timers

theorem enableRead_live (hb : r.handlers b ≠ none) : (r.enableRead a).handlers b ≠ none := by
  unfold Reactor.enableRead
  split
  · exact hb
  · exact (told_setEvents r a _ _).live hb

theorem Sound.pushed (hs : Sound r) (ha : r.handlers a ≠ none) (hnew : a ∉ r.timerEventHandlers) :
    Sound { r with timerEventHandlers := r.timerEventHandlers ++ [a] } := by
  refine ⟨⟨hs.distinct, hs.mapped, hs.opened, hs.held, fun b hb => ?_, ?_⟩, fun b k hb => ?_⟩
  · rcases List.mem_append.1 hb with hold | hlast
    · exact hs.timers b hold
    · rw [List.mem_singleton.1 hlast]
      exact ha
  · refine List.nodup_append.2 ⟨hs.nodup, List.nodup_singleton a, ?_⟩
    intro b hb c hc heq
    rw [List.mem_singleton.1 hc] at heq
    exact hnew (heq ▸ hb)
  · exact (hs.kept b k hb).imp_right fun h => h.imp_left fun hmem => List.mem_append_left [a] hmem

/-- The handler that `ScheduleTimer` has pushed, while the local `shared_ptr` is still there. -/
theorem Sound.scheduling (hs : Sound r) {fd : Nat} (ha : r.handlers a = none)
    (hfd : ∀ b h, r.handlers b = some h → h.fd ≠ fd) :
    Sound { (r.make a fd).enableRead a with
      timerEventHandlers := ((r.make a fd).enableRead a).timerEventHandlers ++ [a] } := by
  have hself : (r.make a fd).handlers a ≠ none := by
    show Function.update r.handlers a _ a ≠ none
    rw [Function.update_self]
    exact nofun
  refine ((hs.make ha hfd).enableRead (Finset.mem_insert_self _ _)).pushed (enableRead_live hself) ?_
  rw [enableRead_timers]
  exact fun hmem => hs.timers a hmem ha

theorem Sound.scheduleTimer (hs : Sound r) {fd : Nat} (ha : r.handlers a = none)
    (hfd : ∀ b h, r.handlers b = some h → h.fd ≠ fd) : Sound (r.scheduleTimer a fd) :=
  (hs.scheduling ha hfd).release a

theorem InStep.scheduleTimer (hs : Sound r) (hin : ∀ b, InStep r b) {fd : Nat}
    (ha : r.handlers a = none) (hfd : ∀ b h, r.handlers b = some h → h.fd ≠ fd) (b : Addr) :
    InStep (r.scheduleTimer a fd) b :=
  InStep.release (hs.scheduling ha hfd)
    (InStep.enableRead (a := a) (hs.make ha hfd) (InStep.make hs hfd hin)) b

/-- The handler has left the list. -/
theorem Sound.linked_cancelled (hs : Sound r) (a : Addr) :
    Linked { r with timerEventHandlers := r.timerEventHandlers.erase a } :=
  ⟨hs.distinct, hs.mapped, hs.opened, hs.held, fun b hb => hs.timers b (List.mem_of_mem_erase hb),
    hs.nodup.erase a⟩

theorem Sound.cancelTimer (hs : Sound r) (timerFd : Nat) : Sound (r.cancelTimer timerFd) := by
  unfold Reactor.cancelTimer
  split
  · exact hs
  · rename_i a ha
    have hdisabled : Sound (r.disableAll a) :=
      hs.disableAll (Or.inr (List.mem_of_find?_eq_some ha))
    refine (hdisabled.linked_cancelled a).collect fun b k hba hb => ?_
    exact (hdisabled.kept b k hb).imp_right fun h => h.imp_left fun hmem =>
      (List.mem_erase_of_ne hba).2 hmem

theorem collect_of_mapped (ha : r.handlers a = some h) (hmap : r.eventHandlers h.fd = some a) :
    r.collect a = r := by
  rw [Reactor.collect, ha]
  exact if_pos (Or.inr (Or.inr hmap))

/-- Emptying an empty mask puts the handler in the map. -/
theorem disableAll_again (hs : Sound r) (hin : InStep r a) (ha : r.handlers a = some h)
    (hempty : h.events = noneEvent) :
    (r.disableAll a).handlers a = some { h with events := noneEvent } ∧
      (r.disableAll a).eventHandlers h.fd = some a := by
  have ht := told_setEvents r a h noneEvent
  have habsent : r.eventHandlers h.fd = none :=
    (hs.map_self ha).resolve_right fun hsome => (hin h ha).1.1 hsome hempty
  rw [Reactor.disableAll, ha]
  exact ⟨by rw [ht.handlers, Function.update_self], (ht.added habsent).1⟩

/-- A handler whose mask was empty already stays in the map, and the map keeps it alive. -/
theorem inStep_cancelTimer_iff (hs : Sound r) (hin : ∀ b, InStep r b) (timerFd : Nat) :
    (∀ b, InStep (r.cancelTimer timerFd) b) ↔ ∀ a ∈ r.timerHandler timerFd, EnabledAt r a := by
  unfold Reactor.cancelTimer
  split
  · rename_i hnone
    exact iff_of_true hin fun a ha => nomatch hnone.symm.trans ha
  · rename_i a ha
    have hmem := List.mem_of_find?_eq_some ha
    have hdisabled : Sound (r.disableAll a) := hs.disableAll (Or.inr hmem)
    have hlinked := hdisabled.linked_cancelled a
    constructor
    · intro hall b hb
      obtain rfl := Option.some.inj (ha.symm.trans hb)
      intro h hh hempty
      obtain ⟨hself, hmap⟩ := disableAll_again hs (hin a) hh hempty
      have hcollect := collect_of_mapped (r := { r.disableAll a with
        timerEventHandlers := (r.disableAll a).timerEventHandlers.erase a }) hself hmap
      have hkept : InStep (Reactor.collect { r.disableAll a with
        timerEventHandlers := (r.disableAll a).timerEventHandlers.erase a } a) a := hall a
      rw [hcollect] at hkept
      exact (inStep_disableAll_self hs (hin a)).1 hkept h hh hempty
    · intro henabled
      exact InStep.collect hlinked ((inStep_disableAll_iff hs hin).2 (henabled a ha))

/-! ## Every run -/

/-- What is disabled has a mask that is not empty. -/
def Op.Enabled (r : Reactor) : Op → Prop
  | .disableAll a => EnabledAt r a
  | .cancelTimer timerFd => ∀ a ∈ r.timerHandler timerFd, EnabledAt r a
  | .cleanUp => ∀ a ∈ r.timerEventHandlers, EnabledAt r a
  | _ => True

theorem Sound.step (hs : Sound r) (op : Op) (hop : op.Possible r) :
    Sound (r.step op) := by
  cases op with
  | make a fd => exact hs.make hop.1 hop.2
  | release a => exact hs.release a
  | enableRead a => exact hs.enableRead hop
  | disableAll a => exact hs.disableAll (Or.inl hop)
  | scheduleTimer a fd => exact hs.scheduleTimer hop.1 hop.2
  | cancelTimer timerFd => exact hs.cancelTimer timerFd
  | cleanUp => exact (disableAll_fold _ hs fun _ h => h).1

/-- One step keeps masks and tables together exactly when it disables nothing twice. -/
theorem inStep_step_iff (hs : Sound r) (hin : ∀ b, InStep r b) (op : Op) (hop : op.Possible r) :
    (∀ b, InStep (r.step op) b) ↔ op.Enabled r := by
  cases op with
  | make a fd => exact iff_of_true (InStep.make hs hop.2 hin) trivial
  | release a => exact iff_of_true (InStep.release hs hin) trivial
  | enableRead a => exact iff_of_true (InStep.enableRead hs hin) trivial
  | disableAll a => exact inStep_disableAll_iff hs hin
  | scheduleTimer a fd => exact iff_of_true (InStep.scheduleTimer hs hin hop.1 hop.2) trivial
  | cancelTimer timerFd => exact inStep_cancelTimer_iff hs hin timerFd
  | cleanUp => exact inStep_cleanUp_iff hs hin

theorem Sound.new : Sound Reactor.new where
  distinct _ _ _ _ ha := nomatch ha
  mapped _ _ hmap := nomatch hmap
  opened _ hopen := absurd rfl hopen
  held _ ha := nomatch ha
  timers _ ha := nomatch ha
  nodup := List.nodup_nil
  kept _ _ ha := nomatch ha

/-- A handler is in the map, and the kernel has its descriptor, exactly while its mask is not empty;
one with an empty mask lives only as long as a caller or a timer has it. -/
structure FollowsMask (r : Reactor) : Prop where
  mapped : ∀ a h, r.handlers a = some h → (r.eventHandlers h.fd = some a ↔ h.events ≠ noneEvent)
  registered : ∀ a h, r.handlers a = some h → (r.registered h.fd ≠ none ↔ h.events ≠ noneEvent)
  dropped : ∀ a h, r.handlers a = some h → h.events = noneEvent →
    a ∈ r.held ∨ a ∈ r.timerEventHandlers

theorem Sound.followsMask_iff (hs : Sound r) : FollowsMask r ↔ ∀ a, InStep r a := by
  constructor
  · exact fun hf a h ha => ⟨hf.mapped a h ha, hf.registered a h ha⟩
  · intro hin
    refine ⟨fun a h ha => (hin a h ha).1, fun a h ha => (hin a h ha).2, fun a h ha hempty => ?_⟩
    refine (hs.kept a h ha).imp_right fun hrest => hrest.resolve_right fun hmap => ?_
    exact (hin a h ha).1.1 hmap hempty

theorem followsMask_prefixes_iff (hs : Sound r) (hf : FollowsMask r) (ops : List Op)
    (hops : Along (fun r op => op.Possible r) Reactor.step r ops) :
    (∀ ops', ops' <+: ops → FollowsMask (r.run ops')) ↔
      Along (fun r op => op.Enabled r) Reactor.step r ops := by
  refine Along.prefixes_iff (fun s op hop hs _ => hs.step op hop) (fun s op hop hs hf => ?_) hs hf hops
  have hin := hs.followsMask_iff.1 hf
  exact (hs.step op hop).followsMask_iff.trans (inStep_step_iff hs hin op hop)

theorem FollowsMask.new : FollowsMask Reactor.new :=
  ⟨fun _ _ ha => (nomatch ha), fun _ _ ha => (nomatch ha), fun _ _ ha => (nomatch ha)⟩

/-- **Registration follows the mask** in every state of a run, if and only if nothing is disabled
whose mask is empty already. -/
theorem registration_follows_mask (ops : List Op)
    (hops : Along (fun r op => op.Possible r) Reactor.step Reactor.new ops) :
    (∀ ops', ops' <+: ops → FollowsMask (Reactor.new.run ops')) ↔
      Along (fun r op => op.Enabled r) Reactor.step Reactor.new ops :=
  followsMask_prefixes_iff .new .new ops hops

/-- A timer is cancelled, and the next one gets its address and its descriptor. -/
def descriptorReused : List Op := [.scheduleTimer 1 5, .cancelTimer 5, .scheduleTimer 1 5, .cleanUp]

theorem descriptorReused_possible :
    Along (fun r op => op.Possible r) Reactor.step Reactor.new descriptorReused := by
  refine ⟨⟨rfl, fun _ _ hb => (nomatch hb)⟩, trivial, ⟨by decide, fun b h hb => ?_⟩, trivial, trivial⟩
  have hhandlers : ((Reactor.new.step (.scheduleTimer 1 5)).step (.cancelTimer 5)).handlers =
      Function.update (Function.update (Function.update (Function.update (fun _ => none) 1
        (some ⟨5, noneEvent⟩)) 1 (some ⟨5, readEvent⟩)) 1 (some ⟨5, noneEvent⟩)) 1 none := rfl
  rw [hhandlers, Function.update_idem, Function.update_idem, Function.update_idem,
    Function.update_apply] at hb
  split at hb <;> cases hb

theorem registration_follows_mask_reused : FollowsMask (Reactor.new.run descriptorReused) := by
  refine (registration_follows_mask descriptorReused descriptorReused_possible).2
    ⟨trivial, fun a ha h hh => ?_, trivial, fun a ha h hh => ?_, trivial⟩ _ List.prefix_rfl
  · obtain rfl : 1 = a := Option.some.inj ha
    obtain rfl : (⟨5, readEvent⟩ : EventHandler) = h := Option.some.inj hh
    decide
  · obtain rfl : a = 1 := List.mem_singleton.1 ha
    obtain rfl : (⟨5, readEvent⟩ : EventHandler) = h := Option.some.inj hh
    decide

/-- A timer is cancelled after the loop has cleaned up, and the map keeps it. -/
theorem cancelled_kept : ¬ ∀ ops, Along (fun r op => op.Possible r) Reactor.step Reactor.new ops →
    FollowsMask (Reactor.new.run ops) := by
  intro hall
  have hfollows := hall [.scheduleTimer 1 5, .cleanUp, .cancelTimer 5]
    ⟨⟨rfl, fun _ _ hb => (nomatch hb)⟩, trivial, trivial, trivial⟩
  have hhandler : (Reactor.new.run [.scheduleTimer 1 5, .cleanUp, .cancelTimer 5]).handlers 1 =
      some ⟨5, noneEvent⟩ := rfl
  have hmap : (Reactor.new.run [.scheduleTimer 1 5, .cleanUp, .cancelTimer 5]).eventHandlers 5 =
      some 1 := by decide
  exact (hfollows.mapped 1 _ hhandler).1 hmap rfl

end CUtils.Reactors
