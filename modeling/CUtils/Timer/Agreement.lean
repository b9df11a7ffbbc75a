import CUtils.Timer.Ids
import CUtils.Lib.StateRun

/-!
# The timer tables agree

`Agrees` is what the three tables have to say together. It is kept by every operation with the help
of what is known of the descriptors: a live entry has an open one, and a one-shot entry has one
that no other live entry has (`Inv`). `EraseUnusedTimerId` looks entries up by the ids that fired;
it is right to close their descriptors as long as these ids still belong to one-shot entries.
-/

namespace CUtils.Timers

open StateRun

/-- What the tables have to say together. -/
structure Agrees (t : Timer) : Prop where
  listed : ∀ interval, ∀ e ∈ t.list interval,
    e.interval = interval ∧ t.timerToEntries e.timerId = some e
  entry : ∀ i e, t.timerToEntries i = some e → e.timerId = i ∧ e ∈ t.list e.interval
  nodup : ∀ interval, ((t.list interval).map (·.timerId)).Nodup
  timers : ∀ i e, t.timerToEntries i = some e → t.timers e.timerFd = some e.interval
  valid : ∀ i e, t.timerToEntries i = some e → ValidId i

/-- The ids that this firing is going to erase. -/
def Firing.onceIds (f : Firing) : List Id :=
  f.onceIdsUnused ++
    (f.entryList.filter fun e => decide (e.timerFd = f.timerFd) && e.once).map (·.timerId)

structure Inv (t : Timer) : Prop extends Agrees t where
  handled : ∀ i e, t.timerToEntries i = some e → e.timerFd ∈ t.handlers
  alone : ∀ i j e e', t.timerToEntries i = some e → t.timerToEntries j = some e' → i ≠ j →
    e.timerFd = e'.timerFd → e.once = false
  counter : t.timerId ≠ 0
  fired : ∀ f ∈ t.firing, ∀ i ∈ f.onceIds, ∀ e, t.timerToEntries i = some e → e.once = true

theorem Inv.new : Inv Timer.new where
  listed interval e he := absurd he (by simp [Timer.list, Timer.new])
  entry i e he := absurd he (by simp [Timer.new])
  nodup interval := by simp [Timer.list, Timer.new]
  timers i e he := absurd he (by simp [Timer.new])
  valid i e he := absurd he (by simp [Timer.new])
  handled i e he := absurd he (by simp [Timer.new])
  alone i j e e' he := absurd he (by simp [Timer.new])
  counter := by decide
  fired f hf := absurd hf (by simp [Timer.new])

namespace Timer

@[simp] theorem list_setList (t : Timer) (interval : BitVec 32) (l : List Entry)
    (interval' : BitVec 32) :
    (t.setList interval l).list interval' = if interval' = interval then l else t.list interval' := by
  unfold list setList
  by_cases h : interval' = interval
  · subst h
    simp
  · simp [h]

/-- A lookup that inserts a default. -/
theorem list_setList_self (t : Timer) (interval interval' : BitVec 32) :
    (t.setList interval (t.list interval)).list interval' = t.list interval' := by
  rw [list_setList]
  by_cases h : interval' = interval
  · rw [if_pos h, h]
  · rw [if_neg h]

theorem list_dropIfEmpty (t : Timer) (interval interval' : BitVec 32) :
    (t.dropIfEmpty interval).list interval' = t.list interval' := by
  unfold dropIfEmpty
  by_cases hnil : t.list interval = []
  · rw [if_pos hnil]
    show (Function.update t.intervalToTimers interval none interval').getD [] = _
    by_cases h : interval' = interval
    · subst h
      rw [Function.update_self, hnil]
      rfl
    · rw [Function.update_of_ne h]
      rfl
  · rw [if_neg hnil]

@[simp] theorem dropIfEmpty_timers (t : Timer) (interval : BitVec 32) :
    (t.dropIfEmpty interval).timers = t.timers := by
  unfold dropIfEmpty
  split <;> rfl

@[simp] theorem dropIfEmpty_timerToEntries (t : Timer) (interval : BitVec 32) :
    (t.dropIfEmpty interval).timerToEntries = t.timerToEntries := by
  unfold dropIfEmpty
  split <;> rfl

@[simp] theorem dropIfEmpty_timerId (t : Timer) (interval : BitVec 32) :
    (t.dropIfEmpty interval).timerId = t.timerId := by
  unfold dropIfEmpty
  split <;> rfl

@[simp] theorem dropIfEmpty_firing (t : Timer) (interval : BitVec 32) :
    (t.dropIfEmpty interval).firing = t.firing := by
  unfold dropIfEmpty
  split <;> rfl

theorem mem_handlers_dropIfEmpty {t : Timer} {interval : BitVec 32} {fd : Nat} :
    fd ∈ (t.dropIfEmpty interval).handlers ↔
      fd ∈ t.handlers ∧ (t.list interval = [] → t.timers fd ≠ some interval) := by
  unfold dropIfEmpty
  by_cases hnil : t.list interval = []
  · rw [if_pos hnil]
    refine Finset.mem_filter.trans (and_congr_right fun _ => ?_)
    exact ⟨fun hne _ => hne, fun hne => hne hnil⟩
  · rw [if_neg hnil]
    exact ⟨fun hmem => ⟨hmem, fun h => absurd h hnil⟩, And.left⟩

end Timer

/-! ## An entry goes -/

/-- All that an operation has to see to when it removes the entry of `i`. -/
theorem Inv.shrink {t t' : Timer} (h : Inv t) {i : Id}
    (hentries : t'.timerToEntries = Function.update t.timerToEntries i none)
    (hlist : ∀ interval, t'.list interval = (t.list interval).filter fun e => e.timerId ≠ i)
    (hfds : ∀ j e, j ≠ i → t.timerToEntries j = some e →
      t'.timers e.timerFd = t.timers e.timerFd ∧ e.timerFd ∈ t'.handlers)
    (hcounter : t'.timerId = t.timerId) (hfiring : t'.firing = t.firing) : Inv t' := by
  have hlive : ∀ {j e}, t'.timerToEntries j = some e → j ≠ i ∧ t.timerToEntries j = some e := by
    intro j e hj
    rw [hentries] at hj
    by_cases hji : j = i
    · rw [hji, Function.update_self] at hj
      exact absurd hj (by simp)
    · rw [Function.update_of_ne hji] at hj
      exact ⟨hji, hj⟩
  refine ⟨⟨fun interval e he => ?_, fun j e hj => ?_, fun interval => ?_, fun j e hj => ?_,
    fun j e hj => h.valid j e (hlive hj).2⟩, fun j e hj => ?_,
    fun j k e e' hj hk => h.alone j k e e' (hlive hj).2 (hlive hk).2, by rw [hcounter]; exact h.counter,
    fun f hf j hmem e hj => ?_⟩
  · rw [hlist, List.mem_filter, decide_eq_true_eq] at he
    obtain ⟨hinterval, hentry⟩ := h.listed interval e he.1
    refine ⟨hinterval, ?_⟩
    rw [hentries, Function.update_of_ne he.2]
    exact hentry
  · obtain ⟨hji, hj⟩ := hlive hj
    obtain ⟨hid, hmem⟩ := h.entry j e hj
    refine ⟨hid, ?_⟩
    rw [hlist, List.mem_filter]
    exact ⟨hmem, by simpa [hid] using hji⟩
  · rw [hlist]
    exact (h.nodup interval).sublist (List.filter_sublist.map _)
  · obtain ⟨hji, hj⟩ := hlive hj
    rw [(hfds j e hji hj).1]
    exact h.timers j e hj
  · obtain ⟨hji, hj⟩ := hlive hj
    exact (hfds j e hji hj).2
  · rw [hfiring] at hf
    exact h.fired f hf j hmem e (hlive hj).2

/-- What `Unregister` and `EraseUnusedTimerId` do with an entry; `l` is the list without it. -/
def Timer.removed (t : Timer) (i : Id) (e : Entry) (l : List Entry) : Timer :=
  (((if e.once then t.dropFd e.timerFd else t).setList e.interval l).dropIfEmpty e.interval).eraseId i

theorem Timer.removed_timerToEntries (t : Timer) (i : Id) (e : Entry) (l : List Entry) :
    (t.removed i e l).timerToEntries = Function.update t.timerToEntries i none := by
  show Function.update (Timer.dropIfEmpty _ _).timerToEntries i none = _
  rw [Timer.dropIfEmpty_timerToEntries]
  show Function.update (Timer.timerToEntries (if _ then _ else _)) i none = _
  split <;> rfl

theorem Inv.removed {t : Timer} (h : Inv t) {i : Id} {e : Entry}
    (he : t.timerToEntries i = some e) {l : List Entry}
    (hl : l = (t.list e.interval).filter fun e => e.timerId ≠ i) : Inv (t.removed i e l) := by
  set q := if e.once then t.dropFd e.timerFd else t with hq
  have hqlist : ∀ interval, q.list interval = t.list interval := by
    intro interval
    rw [hq]
    split <;> rfl
  have hqfds : ∀ j e', j ≠ i → t.timerToEntries j = some e' →
      q.timers e'.timerFd = t.timers e'.timerFd ∧ e'.timerFd ∈ q.handlers := by
    intro j e' hji hj
    by_cases honce : e.once = true
    · have hne : e'.timerFd ≠ e.timerFd := by
        intro heq
        rw [h.alone i j e e' he hj hji.symm heq.symm] at honce
        exact absurd honce (by simp)
      rw [hq, if_pos honce]
      exact ⟨Function.update_of_ne hne _ _,
        Finset.mem_erase.2 ⟨hne, h.handled j e' hj⟩⟩
    · rw [hq, if_neg honce]
      exact ⟨rfl, h.handled j e' hj⟩
  refine h.shrink (t.removed_timerToEntries i e l) (fun interval => ?_) (fun j e' hji hj => ?_) ?_ ?_
  · show (Timer.dropIfEmpty _ _).list interval = _
    rw [Timer.list_dropIfEmpty, Timer.list_setList]
    by_cases hint : interval = e.interval
    · rw [if_pos hint, hl, hint]
    · rw [if_neg hint, hqlist, List.filter_eq_self.2]
      intro e' he'
      rw [decide_eq_true_eq]
      rintro rfl
      obtain ⟨hinterval, hentry⟩ := h.listed interval e' he'
      rw [he] at hentry
      obtain rfl := Option.some.inj hentry
      exact hint hinterval.symm
  · obtain ⟨htimers, hhandler⟩ := hqfds j e' hji hj
    refine ⟨?_, ?_⟩
    · show (Timer.dropIfEmpty _ _).timers _ = _
      rw [Timer.dropIfEmpty_timers]
      exact htimers
    · refine Timer.mem_handlers_dropIfEmpty.2 ⟨hhandler, fun hnil => ?_⟩
      show q.timers e'.timerFd ≠ _
      rw [htimers, h.timers j e' hj]
      intro heq
      obtain ⟨hid, hmem⟩ := h.entry j e' hj
      rw [Timer.list_setList, if_pos rfl, hl, ← Option.some.inj heq, List.filter_eq_nil_iff] at hnil
      exact hnil e' hmem (by simpa [hid] using hji)
  · show (Timer.dropIfEmpty _ _).timerId = _
    rw [Timer.dropIfEmpty_timerId]
    show Timer.timerId (if _ then _ else _) = _
    split <;> rfl
  · show (Timer.dropIfEmpty _ _).firing = _
    rw [Timer.dropIfEmpty_firing]
    show Timer.firing (if _ then _ else _) = _
    split <;> rfl

/-- In a list without repetitions, the first entry with an id is the only one. -/
theorem eraseP_eq_filter {l : List Entry} (h : (l.map (·.timerId)).Nodup) (i : Id) :
    (l.eraseP fun e => e.timerId = i) = l.filter fun e => e.timerId ≠ i := by
  induction l with
  | nil => rfl
  | cons e l ih =>
      rw [List.map_cons, List.nodup_cons] at h
      by_cases he : e.timerId = i
      · rw [List.eraseP_cons_of_pos (by simpa using he), List.filter_cons_of_neg (by simpa using he),
          List.filter_eq_self.2]
        intro e' he'
        rw [decide_eq_true_eq]
        intro heq
        exact h.1 (List.mem_map.2 ⟨e', he', heq.trans he.symm⟩)
      · rw [List.eraseP_cons_of_neg (by simpa using he), List.filter_cons_of_pos (by simpa using he),
          ih h.2]

theorem Inv.unregister_eq {t : Timer} (h : Inv t) {i : Id} {e : Entry}
    (he : t.timerToEntries i = some e) :
    t.unregister i = t.removed i e ((t.list e.interval).filter fun e => e.timerId ≠ i) := by
  obtain ⟨hid, hmem⟩ := h.entry i e he
  -- the entry that the loop finds is the one the id stands for
  have hfind : ((t.list e.interval).find? fun e => e.timerId = i) = some e := by
    cases hf : (t.list e.interval).find? fun e => e.timerId = i with
    | none =>
        rw [List.find?_eq_none] at hf
        exact absurd hid (by simpa using hf e hmem)
    | some e' =>
        have hid' : e'.timerId = i := by simpa using List.find?_some hf
        have hentry := (h.listed _ e' (List.mem_of_find?_eq_some hf)).2
        rw [hid', he] at hentry
        exact hentry.symm
  rw [Timer.unregister, he]
  simp only [hfind]
  rw [eraseP_eq_filter (h.nodup e.interval) i, Timer.removed]

theorem Inv.unregister {t : Timer} (h : Inv t) (i : Id) : Inv (t.unregister i) := by
  cases he : t.timerToEntries i with
  | none =>
      rw [Timer.unregister, he]
      exact h
  | some e =>
      rw [h.unregister_eq he]
      exact h.removed he rfl

/-- The order in which `EraseUnusedTimerId` drops an id and an empty list does not matter. -/
theorem dropIfEmpty_eraseId (t : Timer) (interval : BitVec 32) (i : Id) :
    (t.eraseId i).dropIfEmpty interval = (t.dropIfEmpty interval).eraseId i := by
  unfold Timer.dropIfEmpty
  show (if t.list interval = [] then _ else _) = _
  split <;> rfl

/-- What the loop of `EraseUnusedTimerId` does with an entry whose id has fired. -/
theorem eraseLoop_removed {t : Timer} {interval : BitVec 32} {unusedIds : List Id}
    {kept rest : List Entry} {e : Entry} (hmem : e.timerId ∈ unusedIds) (honce : e.once = true)
    (hinterval : e.interval = interval) :
    Timer.eraseLoop interval unusedIds t kept (e :: rest) =
      if kept ++ rest = [] then t.removed e.timerId e (kept ++ rest)
      else Timer.eraseLoop interval unusedIds (t.removed e.timerId e (kept ++ rest)) kept rest := by
  rw [Timer.eraseLoop, if_neg (not_not.2 hmem), Timer.removed, if_pos honce, hinterval,
    ← dropIfEmpty_eraseId]
  by_cases hnil : kept ++ rest = []
  · simp only [if_pos hnil]
  · have hkept : (((t.dropFd e.timerFd).setList interval (kept ++ rest)).eraseId e.timerId).list
        interval = kept ++ rest := by
      show (Timer.setList _ _ _).list interval = _
      rw [Timer.list_setList, if_pos rfl]
    simp only [if_neg hnil]
    rw [Timer.dropIfEmpty, if_neg (by rw [hkept]; exact hnil)]

/-- The list without an entry. -/
theorem Inv.without {t : Timer} (h : Inv t) {interval : BitVec 32} {kept rest : List Entry} {e : Entry}
    (hlist : t.list interval = kept ++ e :: rest) :
    kept ++ rest = (t.list interval).filter fun e' => e'.timerId ≠ e.timerId := by
  have hnodup := h.nodup interval
  rw [hlist, List.map_append, List.map_cons, List.nodup_append] at hnodup
  obtain ⟨-, hrest, hdisjoint⟩ := hnodup
  rw [hlist, List.filter_append, List.filter_cons_of_neg (by simp), List.filter_eq_self.2,
    List.filter_eq_self.2]
  · intro e' he'
    rw [decide_eq_true_eq]
    intro heq
    exact (List.nodup_cons.1 hrest).1 (List.mem_map.2 ⟨e', he', heq⟩)
  · intro e' he'
    rw [decide_eq_true_eq]
    exact hdisjoint _ (List.mem_map_of_mem he') _ (by simp)

theorem list_removed {t : Timer} {i : Id} {e : Entry} {l : List Entry} :
    (t.removed i e l).list e.interval = l := by
  show (Timer.dropIfEmpty _ _).list e.interval = l
  rw [Timer.list_dropIfEmpty, Timer.list_setList, if_pos rfl]

/-- The loop of `EraseUnusedTimerId`, over ids that stand for one-shot entries if they stand for
any, keeps what removing a one-shot entry keeps. -/
theorem Inv.eraseLoop_keeps {P : Timer → Prop}
    (hP : ∀ t i e l, Inv t → t.timerToEntries i = some e → e.once = true → P t →
      P (t.removed i e l))
    {interval : BitVec 32} {unusedIds : List Id} {t : Timer} (h : Inv t) (ht : P t)
    (honce : ∀ i ∈ unusedIds, ∀ e, t.timerToEntries i = some e → e.once = true)
    {kept rest : List Entry} (hlist : t.list interval = kept ++ rest) :
    Inv (Timer.eraseLoop interval unusedIds t kept rest) ∧
      P (Timer.eraseLoop interval unusedIds t kept rest) := by
  induction rest generalizing t kept with
  | nil => exact ⟨h, ht⟩
  | cons e rest ih =>
      by_cases hmem : e.timerId ∉ unusedIds
      · rw [Timer.eraseLoop, if_pos hmem]
        exact ih h ht honce (by rw [hlist, List.append_assoc]; rfl)
      · obtain ⟨hinterval, he⟩ := h.listed interval e (by rw [hlist]; simp)
        have hfired := honce e.timerId (not_not.1 hmem) e he
        have hremoved : Inv (t.removed e.timerId e (kept ++ rest)) :=
          h.removed he (by rw [hinterval]; exact h.without hlist)
        have hkept := hP t e.timerId e (kept ++ rest) h he hfired ht
        rw [eraseLoop_removed (not_not.1 hmem) hfired hinterval]
        split
        · exact ⟨hremoved, hkept⟩
        · refine ih hremoved hkept (fun i hi e' he' => ?_) ?_
          · rw [Timer.removed_timerToEntries] at he'
            by_cases hie : i = e.timerId
            · rw [hie, Function.update_self] at he'
              cases he'
            · rw [Function.update_of_ne hie] at he'
              exact honce i hi e' he'
          · rw [← hinterval]
            exact list_removed

/-! ## Firing -/

/-- A default that is inserted does not change what the tables say. -/
theorem Inv.default {t t' : Timer} (h : Inv t) (hentries : t'.timerToEntries = t.timerToEntries)
    (hlist : ∀ interval, t'.list interval = t.list interval)
    (htimers : ∀ fd interval, t.timers fd = some interval → t'.timers fd = some interval)
    (hhandlers : t'.handlers = t.handlers) (hcounter : t'.timerId = t.timerId)
    (hfired : ∀ f ∈ t'.firing, ∀ i ∈ f.onceIds, ∀ e, t.timerToEntries i = some e → e.once = true) :
    Inv t' := by
  refine ⟨⟨fun interval e => ?_, fun i e => ?_, fun interval => ?_, fun i e hi => ?_, fun i e => ?_⟩,
    fun i e => ?_, fun i j e e' => ?_, ?_, fun f hf i hi e => ?_⟩
  · rw [hlist, hentries]
    exact h.listed interval e
  · rw [hlist, hentries]
    exact h.entry i e
  · rw [hlist]
    exact h.nodup interval
  · rw [hentries] at hi
    exact htimers _ _ (h.timers i e hi)
  · rw [hentries]
    exact h.valid i e
  · rw [hentries, hhandlers]
    exact h.handled i e
  · rw [hentries]
    exact h.alone i j e e'
  · rw [hcounter]
    exact h.counter
  · rw [hentries]
    exact hfired f hf i hi e

theorem Inv.lookup {t : Timer} (h : Inv t) (interval : BitVec 32) :
    Inv (t.setList interval (t.list interval)) :=
  h.default rfl (Timer.list_setList_self t interval) (fun _ _ hfd => hfd) rfl rfl h.fired

theorem Inv.onTimer {t : Timer} (h : Inv t) (timerFd : Nat) : Inv (t.onTimer timerFd) := by
  unfold Timer.onTimer
  cases hf : t.firing with
  | some f => exact h
  | none =>
      set interval := (t.timers timerFd).getD 0 with hinterval
      refine h.default rfl (fun interval' => ?_) (fun fd interval' hfd => ?_) rfl rfl
        fun f hf i hi e he => ?_
      · exact Timer.list_setList_self t interval interval'
      · show Function.update t.timers timerFd (some interval) fd = _
        by_cases hfd' : fd = timerFd
        · rw [hfd', Function.update_self, hinterval, ← hfd', hfd]
          rfl
        · rw [Function.update_of_ne hfd', hfd]
      · obtain rfl := Option.some.inj hf
        rw [Firing.onceIds, List.nil_append, List.mem_map] at hi
        obtain ⟨e', he', rfl⟩ := hi
        rw [List.mem_filter, Bool.and_eq_true] at he'
        have hentry := (h.listed interval e' he'.1).2
        rw [he] at hentry
        obtain rfl := Option.some.inj hentry
        exact he'.2.2

theorem Inv.onTimerNext {t : Timer} (h : Inv t) : Inv t.onTimerNext := by
  unfold Timer.onTimerNext
  split
  · next timerFd interval ptr rest onceIdsUnused hf =>
      refine h.default rfl (fun _ => rfl) (fun _ _ hfd => hfd) rfl rfl fun f hf' i hi e he => ?_
      obtain rfl := Option.some.inj hf'
      refine h.fired _ hf i ?_ e he
      -- the ids that were collected and those still to come are the same taken together
      unfold Firing.onceIds at hi ⊢
      simp only [List.mem_append] at hi ⊢
      by_cases hptr : ptr.timerFd = timerFd ∧ ptr.once = true
      · rw [if_pos hptr, List.mem_append, List.mem_singleton] at hi
        rw [List.filter_cons_of_pos (by simp [hptr]), List.map_cons, List.mem_cons]
        tauto
      · rw [if_neg hptr] at hi
        rw [List.filter_cons_of_neg (by simpa using hptr)]
        exact hi
  · exact h

theorem Inv.onTimerEnd_keeps {P : Timer → Prop}
    (hP : ∀ t i e l, Inv t → t.timerToEntries i = some e → e.once = true → P t →
      P (t.removed i e l))
    (hdefault : ∀ t t', t'.timerToEntries = t.timerToEntries → t'.handlers = t.handlers → P t → P t')
    {t : Timer} (h : Inv t) (ht : P t) : Inv t.onTimerEnd ∧ P t.onTimerEnd := by
  unfold Timer.onTimerEnd
  split
  · next timerFd interval onceIdsUnused hf =>
      have hdone : Inv { t with firing := none } :=
        h.default rfl (fun _ => rfl) (fun _ _ hfd => hfd) rfl rfl fun f hf' => absurd hf' (by simp)
      by_cases hnil : onceIdsUnused = []
      · simp only [if_pos hnil]
        exact ⟨hdone, hdefault t _ rfl rfl ht⟩
      · simp only [if_neg hnil]
        rw [Timer.eraseUnusedTimerId]
        refine (hdone.lookup interval).eraseLoop_keeps hP (hdefault t _ rfl rfl ht)
          (fun i hi e he => ?_) ?_
        · refine h.fired _ hf i ?_ e he
          rw [Firing.onceIds]
          exact List.mem_append_left _ hi
        · rw [Timer.list_setList_self, List.nil_append]
  · exact ⟨h, ht⟩

theorem Inv.onTimerEnd {t : Timer} (h : Inv t) : Inv t.onTimerEnd :=
  (h.onTimerEnd_keeps (P := fun _ => True) (fun _ _ _ _ _ _ _ _ => trivial)
    (fun _ _ _ _ _ => trivial) trivial).1

/-! ## Registering -/

theorem Timer.nextId_congr {t t' : Timer} (hentries : t'.timerToEntries = t.timerToEntries)
    (hcounter : t'.timerId = t.timerId) : t'.nextId = t.nextId := by
  have hsearch : ∀ n i, t'.searchId n i = t.searchId n i := by
    intro n
    induction n with
    | zero => intro i; rfl
    | succ n ih =>
        intro i
        rw [searchId, searchId, hentries, ih]
  rw [nextId, nextId, hcounter, hsearch]

/-- A new entry, on a descriptor that is open for its interval and that it may share. -/
theorem Inv.addEntry {t : Timer} (h : Inv t) {e : Entry} (hvalid : ValidId e.timerId)
    (hfree : t.timerToEntries e.timerId = none) (htimers : t.timers e.timerFd = some e.interval)
    (hhandler : e.timerFd ∈ t.handlers)
    (hshared : ∀ i e', t.timerToEntries i = some e' → e'.timerFd = e.timerFd →
      e'.once = false ∧ e.once = false)
    (hfired : ∀ f ∈ t.firing, e.timerId ∈ f.onceIds → e.once = true) : Inv (t.addEntry e) := by
  have hlist : ∀ interval, (t.addEntry e).list interval =
      if interval = e.interval then t.list e.interval ++ [e] else t.list interval :=
    fun interval => Timer.list_setList t e.interval _ interval
  have hlive : ∀ {i e'}, (t.addEntry e).timerToEntries i = some e' →
      i = e.timerId ∧ e' = e ∨ i ≠ e.timerId ∧ t.timerToEntries i = some e' := by
    intro i e' hi
    change Function.update t.timerToEntries e.timerId (some e) i = some e' at hi
    by_cases hie : i = e.timerId
    · rw [hie, Function.update_self] at hi
      exact Or.inl ⟨hie, (Option.some.inj hi).symm⟩
    · rw [Function.update_of_ne hie] at hi
      exact Or.inr ⟨hie, hi⟩
  have hmem : ∀ {interval e'}, e' ∈ t.list interval → e' ∈ (t.addEntry e).list interval := by
    intro interval e' he'
    rw [hlist]
    by_cases hint : interval = e.interval
    · rw [if_pos hint, ← hint]
      exact List.mem_append_left _ he'
    · rwa [if_neg hint]
  refine ⟨⟨fun interval e' he' => ?_, fun i e' hi => ?_, fun interval => ?_, fun i e' hi => ?_,
    fun i e' hi => ?_⟩, fun i e' hi => ?_, fun i j e₁ e₂ hi hj hij hfd => ?_, hvalid.succ_ne_zero,
    fun f hf i hmem' e' hi => ?_⟩
  · have hcases : e' ∈ t.list interval ∨ interval = e.interval ∧ e' = e := by
      rw [hlist] at he'
      by_cases hint : interval = e.interval
      · rw [if_pos hint, List.mem_append, List.mem_singleton] at he'
        exact he'.imp (fun h => by rwa [hint]) fun h => ⟨hint, h⟩
      · rw [if_neg hint] at he'
        exact Or.inl he'
    rcases hcases with he' | ⟨hint, rfl⟩
    · obtain ⟨hinterval, hentry⟩ := h.listed interval e' he'
      refine ⟨hinterval, ?_⟩
      have hne : e'.timerId ≠ e.timerId := by
        intro heq
        rw [heq, hfree] at hentry
        exact absurd hentry (by simp)
      exact (Function.update_of_ne hne _ _).trans hentry
    · exact ⟨hint.symm, Function.update_self _ _ _⟩
  · rcases hlive hi with ⟨rfl, rfl⟩ | ⟨-, hi⟩
    · refine ⟨rfl, ?_⟩
      rw [hlist, if_pos rfl]
      simp
    · exact ⟨(h.entry i e' hi).1, hmem (h.entry i e' hi).2⟩
  · rw [hlist]
    by_cases hint : interval = e.interval
    · rw [if_pos hint, List.map_append, List.nodup_append]
      refine ⟨h.nodup e.interval, by simp, fun i hi j hj => ?_⟩
      obtain ⟨e', he', rfl⟩ := List.mem_map.1 hi
      rw [List.map_singleton, List.mem_singleton] at hj
      subst hj
      intro heq
      have hentry := (h.listed _ e' he').2
      rw [heq, hfree] at hentry
      exact absurd hentry (by simp)
    · rw [if_neg hint]
      exact h.nodup interval
  · rcases hlive hi with ⟨-, rfl⟩ | ⟨-, hi⟩
    · exact htimers
    · exact h.timers i e' hi
  · rcases hlive hi with ⟨rfl, -⟩ | ⟨-, hi⟩
    · exact hvalid
    · exact h.valid i e' hi
  · rcases hlive hi with ⟨-, rfl⟩ | ⟨-, hi⟩
    · exact hhandler
    · exact h.handled i e' hi
  · rcases hlive hi with ⟨hie, rfl⟩ | ⟨-, hi'⟩
    · rcases hlive hj with ⟨hje, -⟩ | ⟨-, hj'⟩
      · exact absurd (hie.trans hje.symm) hij
      · exact (hshared j e₂ hj' hfd.symm).2
    · rcases hlive hj with ⟨-, rfl⟩ | ⟨-, hj'⟩
      · exact (hshared i e₁ hi' hfd).1
      · exact h.alone i j e₁ e₂ hi' hj' hij hfd
  · rcases hlive hi with ⟨rfl, rfl⟩ | ⟨-, hi⟩
    · exact hfired f hf hmem'
    · exact h.fired f hf i hmem' e' hi

/-- A new descriptor does not touch the live entries. -/
theorem Inv.created {t : Timer} (h : Inv t) {fd : Nat} (hfd : fd ∉ t.handlers)
    (interval : BitVec 32) :
    Inv { t with
      handlers := insert fd t.handlers
      timers := Function.update t.timers fd (some interval) } := by
  have hne : ∀ i e, t.timerToEntries i = some e → e.timerFd ≠ fd :=
    fun i e hi heq => hfd (heq ▸ h.handled i e hi)
  exact ⟨⟨h.listed, h.entry, h.nodup,
    fun i e hi => (Function.update_of_ne (hne i e hi) _ _).trans (h.timers i e hi), h.valid⟩,
    fun i e hi => Finset.mem_insert_of_mem (h.handled i e hi), h.alone, h.counter, h.fired⟩

/-- **What `Register` does.** It fails and leaves the tables alone, or it adds an entry under a
free id, on a new descriptor or on one it may share. -/
theorem Inv.register_cases {t : Timer} (h : Inv t) (interval : BitVec 32) (once : Bool)
    {create : Option Nat} (hcreate : ∀ fd ∈ create, fd ∉ t.handlers)
    (hlive : t.live < 2 ^ 32 - 3) :
    t.register interval once create = (some dealFailed, t) ∨
      ∃ i q fd, t.nextId = some i ∧ ValidId i ∧ t.timerToEntries i = none ∧
        t.register interval once create = (some i, q.addEntry ⟨i, interval, once, fd⟩) ∧
        Inv q ∧ q.timerToEntries = t.timerToEntries ∧ q.firing = t.firing ∧
        q.timers fd = some interval ∧ q.handlers = insert fd t.handlers ∧
        (∀ j e, t.timerToEntries j = some e → e.timerFd = fd → e.once = false ∧ once = false) := by
  obtain ⟨i, hnext, hvalid, hfree⟩ := t.nextId_spec h.counter hlive
  unfold Timer.register
  cases hshare : if once then none else t.getTimerFd interval with
  | none =>
      cases create with
      | none => exact Or.inl rfl
      | some fd =>
          have hfd := hcreate fd rfl
          set q : Timer := { t with
            handlers := insert fd t.handlers
            timers := Function.update t.timers fd (some interval) } with hq
          have hnext' : q.nextId = some i := by
            have hcongr : q.nextId = t.nextId := Timer.nextId_congr rfl rfl
            rw [hcongr, hnext]
          refine Or.inr ⟨i, q, fd, hnext, hvalid, hfree, ?_, h.created hfd interval, rfl, rfl,
            Function.update_self _ _ _, rfl, fun j e hj heq => ?_⟩
          · simp only [Timer.doRegister]
            rw [← hq, hnext']
          · exact absurd (heq ▸ h.handled j e hj) hfd
  | some fd =>
      have honce : once = false := by
        cases once with
        | true => exact absurd hshare (by simp)
        | false => rfl
      subst honce
      -- the descriptor of the first repeating entry of the interval
      obtain ⟨e, he, hrepeat, hefd⟩ : ∃ e ∈ t.list interval, e.once = false ∧ e.timerFd = fd := by
        simp only [Bool.false_eq_true, if_false, Timer.getTimerFd] at hshare
        unfold Timer.list
        cases hl : t.intervalToTimers interval with
        | none =>
            rw [hl] at hshare
            exact absurd hshare (by simp)
        | some l =>
            rw [hl] at hshare
            obtain ⟨e, hfind, hefd⟩ := Option.map_eq_some_iff.1 hshare
            exact ⟨e, List.mem_of_find?_eq_some hfind, by simpa using List.find?_some hfind, hefd⟩
      obtain ⟨hinterval, hentry⟩ := h.listed interval e he
      refine Or.inr ⟨i, t, fd, hnext, hvalid, hfree, ?_, h, rfl, rfl, ?_, ?_, fun j e' hj heq => ?_⟩
      · simp only [hnext]
      · rw [← hefd, h.timers _ e hentry, hinterval]
      · rw [← hefd, Finset.insert_eq_of_mem (h.handled _ e hentry)]
      · refine ⟨?_, rfl⟩
        by_cases hje : j = e.timerId
        · rw [hje, hentry] at hj
          rw [← Option.some.inj hj]
          exact hrepeat
        · exact h.alone j _ e' e hj hentry hje (heq.trans hefd.symm)

/-! ## Runs -/

/-- `timerfd_create` returns a descriptor that is not open, and some id is free. -/
def Op.Possible (t : Timer) : Op → Prop
  | .register _ _ create => (∀ fd ∈ create, fd ∉ t.handlers) ∧ t.live < 2 ^ 32 - 3
  | .unregister _ | .onTimer _ | .onTimerNext | .onTimerEnd => True

/-- A repeating timer is going to be given the id of a one-shot timer that is just firing. -/
def Op.Reuses (t : Timer) : Op → Prop
  | .register _ once _ => once = false ∧ ∃ f ∈ t.firing, ∃ i ∈ t.nextId, i ∈ f.onceIds
  | .unregister _ | .onTimer _ | .onTimerNext | .onTimerEnd => False

theorem Inv.step {t : Timer} (op : Op) (hop : op.Possible t ∧ ¬ op.Reuses t) (h : Inv t) :
    Inv (t.step op) := by
  cases op with
  | register interval once create =>
      obtain ⟨⟨hcreate, hlive⟩, hreuse⟩ := hop
      rcases h.register_cases interval once hcreate hlive with hfail |
        ⟨i, q, fd, hnext, hvalid, hfree, hrun, hq, hentries, hfiring, htimers, hhandlers, hshared⟩
      · rw [Timer.step, hfail]
        exact h
      · have hhandler : fd ∈ q.handlers := by
          rw [hhandlers]
          exact Finset.mem_insert_self fd t.handlers
        rw [Timer.step, hrun]
        refine hq.addEntry hvalid (by rw [hentries]; exact hfree) htimers hhandler ?_ ?_
        · rw [hentries]
          exact hshared
        · intro f hf hmem
          rw [hfiring] at hf
          cases once with
          | true => rfl
          | false => exact absurd ⟨rfl, f, hf, i, hnext, hmem⟩ hreuse
  | unregister i => exact h.unregister i
  | onTimer timerFd => exact h.onTimer timerFd
  | onTimerNext => exact h.onTimerNext
  | onTimerEnd => exact h.onTimerEnd

/-! ### The first registrations -/

theorem Timer.nextId_of_free {t : Timer} (h : t.timerToEntries (getValidId t.timerId) = none) :
    t.nextId = some (getValidId t.timerId) := by
  rw [nextId, show (2 : Nat) ^ 32 = 2 ^ 32 - 1 + 1 from rfl]
  exact searchId_of_free h _

theorem live_le_two {t : Timer} (h : ∀ i, (t.timerToEntries i).isSome = true → i = 1 ∨ i = 2) :
    t.live < 2 ^ 32 - 3 := by
  have hsub : {i : Id | (t.timerToEntries i).isSome = true} ⊆ {1, 2} := fun i hi => h i hi
  have hle := Set.ncard_le_ncard hsub
  have hpair := Set.ncard_insert_le (1 : Id) {2}
  rw [Set.ncard_singleton] at hpair
  unfold Timer.live
  omega

theorem Timer.register_new {t : Timer} {interval : BitVec 32} {once : Bool} (fd : Nat)
    (hshare : (if once then none else t.getTimerFd interval) = none)
    (hfree : t.timerToEntries (getValidId t.timerId) = none) :
    t.register interval once (some fd) =
      (some (getValidId t.timerId), Timer.addEntry { t with
        handlers := insert fd t.handlers
        timers := Function.update t.timers fd (some interval) }
        ⟨getValidId t.timerId, interval, once, fd⟩) := by
  set q : Timer := { t with
    handlers := insert fd t.handlers
    timers := Function.update t.timers fd (some interval) } with hq
  have hnext : q.nextId = some (getValidId t.timerId) := nextId_of_free (t := q) hfree
  unfold register
  simp only [hshare, doRegister]
  rw [← hq, hnext]

theorem step_first : Timer.new.step (.register 100 true (some 3)) =
    Timer.addEntry { Timer.new with
      handlers := {3}
      timers := Function.update (fun _ => none) 3 (some 100) } ⟨1, 100, true, 3⟩ :=
  congrArg Prod.snd (Timer.register_new 3 rfl rfl)

theorem start_possible : Along (fun t op => op.Possible t) Timer.step Timer.new
    [.register 100 true (some 3), .register 100 false (some 4)] := by
  refine ⟨⟨by simp [Timer.new], live_le_two fun i hi => absurd hi (by simp [Timer.new])⟩,
    ⟨?_, live_le_two fun i hi => ?_⟩, trivial⟩
  · rw [step_first]
    intro fd hfd
    obtain rfl := Option.some.inj hfd
    decide
  · rw [step_first] at hi
    change Option.isSome (Function.update (fun _ => none) 1 (some _) i) = true at hi
    by_contra hnot
    rw [Function.update_of_ne (not_or.1 hnot).1] at hi
    exact absurd hi (by simp)

/-- **The tables agree in every state of a run** in which no id comes back too early, and every
`Register` from there returns, either with an error and nothing done or with an id that is valid and
not in use. -/
theorem tables_agree (ops : List Op)
    (hops : Along (fun t op => op.Possible t ∧ ¬ op.Reuses t) Timer.step Timer.new ops) :
    Agrees (Timer.new.run ops) ∧
      ∀ interval once create, (∀ fd ∈ create, fd ∉ (Timer.new.run ops).handlers) →
        (Timer.new.run ops).live < 2 ^ 32 - 3 →
        (Timer.new.run ops).register interval once create = (some dealFailed, Timer.new.run ops) ∨
          ∃ i, ((Timer.new.run ops).register interval once create).1 = some i ∧
            i ≠ 0 ∧ i ≠ uint32Max ∧ i ≠ dealFailed ∧
            (Timer.new.run ops).timerToEntries i = none ∧
            (((Timer.new.run ops).register interval once create).2.timerToEntries i).isSome = true := by
  have hinv : Inv (Timer.new.run ops) :=
    hops.invariant (I := Inv) (fun t op hop h => h.step op hop) Inv.new
  refine ⟨hinv.toAgrees, fun interval once create hcreate hlive => ?_⟩
  rcases hinv.register_cases interval once hcreate hlive with hfail |
    ⟨i, q, fd, -, hvalid, hfree, hrun, -⟩
  · exact Or.inl hfail
  · refine Or.inr ⟨i, ?_, hvalid.pos, hvalid.max, hvalid.failed, hfree, ?_⟩
    · rw [hrun]
    · rw [hrun]
      show (Function.update q.timerToEntries i _ i).isSome = true
      rw [Function.update_self]
      rfl

/-- A one-shot timer and a repeating one of the same interval. The first fires and unregisters itself,
then the second fires. -/
theorem tables_agree_once :
    Agrees (Timer.new.run [.register 100 true (some 3), .register 100 false (some 4), .onTimer 3,
      .unregister 1, .onTimerNext, .onTimerEnd, .onTimer 4, .onTimerNext, .onTimerEnd]) := by
  obtain ⟨hfirst, hsecond, -⟩ := start_possible
  have hfresh : ¬ Op.Reuses (Timer.new.step (.register 100 true (some 3)))
      (.register 100 false (some 4)) := by
    rintro ⟨-, f, hf, -⟩
    rw [step_first] at hf
    cases hf
  have h : Along (fun t op => op.Possible t ∧ ¬ op.Reuses t) Timer.step Timer.new
      [.register 100 true (some 3), .register 100 false (some 4), .onTimer 3, .unregister 1,
        .onTimerNext, .onTimerEnd, .onTimer 4, .onTimerNext, .onTimerEnd] :=
    ⟨⟨hfirst, by simp [Op.Reuses]⟩, ⟨hsecond, hfresh⟩, ⟨trivial, id⟩, ⟨trivial, id⟩, ⟨trivial, id⟩,
      ⟨trivial, id⟩, ⟨trivial, id⟩, ⟨trivial, id⟩, ⟨trivial, id⟩, trivial⟩
  exact (tables_agree _ h).1

/-! ## An id that comes back -/

section Reuse

/-- A one-shot and a repeating timer of one interval have been registered, and others have come and
gone. -/
def waiting (timerId : Id) (stale : Option (BitVec 32)) : Timer where
  intervalToTimers := Function.update (Function.update (fun _ => none) 100
    (some [⟨1, 100, true, 3⟩])) 100 (some [⟨1, 100, true, 3⟩, ⟨2, 100, false, 4⟩])
  timerToEntries := Function.update (Function.update (fun _ => none) 1 (some ⟨1, 100, true, 3⟩)) 2
    (some ⟨2, 100, false, 4⟩)
  timers := Function.update (Function.update (Function.update (fun _ => none) 3 (some 100)) 4
    (some 100)) 5 stale
  timerId := timerId
  handlers := {4, 3}
  firing := none

theorem waiting_live {c : Id} {v : Option (BitVec 32)} {i : Id}
    (h : ((waiting c v).timerToEntries i).isSome = true) : i = 1 ∨ i = 2 := by
  by_contra hnot
  obtain ⟨h1, h2⟩ := not_or.1 hnot
  have hnone : (waiting c v).timerToEntries i = none :=
    (Function.update_of_ne h2 _ _).trans (Function.update_of_ne h1 _ _)
  rw [hnone] at h
  exact absurd h (by simp)

/-- A timer of another interval comes. -/
theorem waiting_register {c i : Id} {v : Option (BitVec 32)} (hi : Timer.getValidId c = i)
    (h1 : i ≠ 1) (h2 : i ≠ 2) :
    (waiting c v).step (.register 7 false (some 5)) =
      Timer.addEntry { waiting c (some 7) with handlers := {5, 4, 3} } ⟨i, 7, false, 5⟩ := by
  have hfree : (waiting c (some 7)).timerToEntries i = none := by
    by_contra hlive
    rcases waiting_live (Option.isSome_iff_ne_none.2 hlive) with h | h
    · exact h1 h
    · exact h2 h
  have htimers : Function.update (waiting c v).timers 5 (some 7) = (waiting c (some 7)).timers :=
    Function.update_idem _ _ _
  have hshare : (if false = true then none else (waiting c v).getTimerFd 7) = none := rfl
  have hvalid : (waiting c v).timerToEntries (Timer.getValidId (waiting c v).timerId) = none := by
    show (waiting c (some 7)).timerToEntries (Timer.getValidId c) = none
    rw [hi]
    exact hfree
  have hrun := Timer.register_new 5 hshare hvalid
  rw [htimers] at hrun
  rw [Timer.step, hrun, ← hi]
  rfl

/-- It goes, and all it leaves behind is the next id. -/
theorem waiting_unregister {c i : Id} (h1 : i ≠ 1) (h2 : i ≠ 2) :
    (Timer.addEntry { waiting c (some 7) with handlers := {5, 4, 3} } ⟨i, 7, false, 5⟩).step
      (.unregister i) = waiting (i + 1) (some 7) := by
  set t := Timer.addEntry { waiting c (some 7) with handlers := {5, 4, 3} } ⟨i, 7, false, 5⟩ with ht
  have hentry : t.timerToEntries i = some ⟨i, 7, false, 5⟩ := Function.update_self _ _ _
  have hlist : t.list 7 = [⟨i, 7, false, 5⟩] := rfl
  have hfind : ([⟨i, 7, false, 5⟩] : List Entry).find? (fun e => e.timerId = i) =
      some ⟨i, 7, false, 5⟩ := by simp
  have herase : ([⟨i, 7, false, 5⟩] : List Entry).eraseP (fun e => e.timerId = i) = [] := by simp
  rw [Timer.step, Timer.unregister]
  simp only [hentry, hlist, hfind, herase, Bool.false_eq_true, if_false]
  rw [Timer.dropIfEmpty, if_pos (by rw [Timer.list_setList, if_pos rfl])]
  have hhandlers : (({5, 4, 3} : Finset Nat).filter fun fd =>
      (waiting 0 (some 7)).timers fd ≠ some 7) = {4, 3} := by decide
  have hlists : Function.update (Function.update t.intervalToTimers 7 (some [])) 7 none =
      (waiting (i + 1) (some 7)).intervalToTimers := by
    rw [Function.update_idem, ht]
    show Function.update (Function.update (waiting c (some 7)).intervalToTimers 7 _) 7 none = _
    rw [Function.update_idem]
    exact Function.update_eq_self 7 (waiting c (some 7)).intervalToTimers
  have hentries : Function.update t.timerToEntries i none =
      (waiting (i + 1) (some 7)).timerToEntries := by
    show Function.update (Function.update (waiting c (some 7)).timerToEntries i _) i none = _
    rw [Function.update_idem]
    have hfree : (waiting c (some 7)).timerToEntries i = none :=
      (Function.update_of_ne h2 _ _).trans (Function.update_of_ne h1 _ _)
    rw [← hfree, Function.update_eq_self]
    rfl
  simp only [Timer.eraseId, Timer.doUnregister, Timer.setList]
  rw [hlists, hentries]
  exact congrArg (fun handlers => { waiting (i + 1) (some 7) with handlers := handlers }) hhandlers

/-- The ids from `3` on, in the order in which they are handed out. -/
def roundId (k : Nat) : Id := BitVec.ofNat 32 (if k < 65544 then k + 3 else k + 4)

/-- As many timers of another interval come and go, one after the other. -/
def rounds (n : Nat) : List Op :=
  (List.range n).flatMap fun k => [.register 7 false (some 5), .unregister (roundId k)]

/-- The static of `Register` before round `k`. -/
def roundCounter (k : Nat) : Id := BitVec.ofNat 32 (if k ≤ 65544 then k + 3 else k + 4)

theorem roundId_toNat {k : Nat} (hk : k < 2 ^ 32 - 5) :
    (roundId k).toNat = if k < 65544 then k + 3 else k + 4 := by
  rw [roundId, BitVec.toNat_ofNat]
  split <;> omega

theorem getValidId_roundCounter {k : Nat} (hk : k < 2 ^ 32 - 5) :
    Timer.getValidId (roundCounter k) = roundId k := by
  apply BitVec.eq_of_toNat_eq
  have hcounter : (roundCounter k).toNat = if k ≤ 65544 then k + 3 else k + 4 := by
    rw [roundCounter, BitVec.toNat_ofNat]
    split <;> omega
  rw [toNat_getValidId, hcounter, roundId_toNat hk]
  by_cases h : k < 65544
  · rw [if_pos h, if_pos h.le]
    rw [if_neg (by omega), if_neg (by omega)]
  · rw [if_neg h]
    by_cases h' : k = 65544
    · subst h'
      rfl
    · rw [if_neg (by omega : ¬ k ≤ 65544), if_neg (by omega), if_neg (by omega)]

theorem roundId_succ (k : Nat) : roundId k + 1 = roundCounter (k + 1) := by
  have hsucc : ∀ n : Nat, BitVec.ofNat 32 n + 1 = BitVec.ofNat 32 (n + 1) :=
    fun n => (BitVec.ofNat_add n 1).symm
  rw [roundId, hsucc, roundCounter]
  congr 1
  split <;> split <;> omega

theorem waiting_rounds {n : Nat} (hn : n ≤ 2 ^ 32 - 5) :
    Along (fun t op => op.Possible t) Timer.step (waiting 3 none) (rounds n) ∧
      (waiting 3 none).run (rounds n) =
        waiting (roundCounter n) (if n = 0 then none else some 7) := by
  induction n with
  | zero => exact ⟨trivial, rfl⟩
  | succ n ih =>
      obtain ⟨halong, hrun⟩ := ih (by omega)
      rw [Timer.run] at hrun
      have hi := getValidId_roundCounter (k := n) (by omega)
      have hnat := roundId_toNat (k := n) (by omega)
      have h1 : roundId n ≠ 1 := by
        intro heq
        rw [heq] at hnat
        change 1 = _ at hnat
        split at hnat <;> omega
      have h2 : roundId n ≠ 2 := by
        intro heq
        rw [heq] at hnat
        change 2 = _ at hnat
        split at hnat <;> omega
      have hrounds : rounds (n + 1) =
          rounds n ++ [.register 7 false (some 5), .unregister (roundId n)] := by
        rw [rounds, List.range_succ, List.flatMap_append]
        rfl
      have hround := waiting_register (v := if n = 0 then none else some 7) hi h1 h2
      rw [hrounds]
      refine ⟨Along.append.2 ⟨halong, ?_⟩, ?_⟩
      · rw [hrun]
        exact ⟨⟨by simp [waiting], live_le_two fun i => waiting_live⟩, trivial, trivial⟩
      · rw [Timer.run, List.foldl_append, hrun, List.foldl_cons, List.foldl_cons,
          List.foldl_nil, hround, waiting_unregister h1 h2, roundId_succ, if_neg (by omega)]

/-- A one-shot timer, id 1, and a repeating one of the same interval, id 2. Other timers come and go
until the ids have been all around. Then the one-shot timer fires; its callback unregisters it and
registers a repeating timer, which gets id 1. -/
def reuseOps (n : Nat) : List Op :=
  [.register 100 true (some 3), .register 100 false (some 4)] ++ rounds n ++
    [.onTimer 3, .unregister 1, .register 100 false none, .onTimerNext, .onTimerNext, .onTimerEnd]

theorem run_start :
    [Op.register 100 true (some 3), Op.register 100 false (some 4)].foldl Timer.step Timer.new =
      waiting 3 none := by
  rw [List.foldl_cons, List.foldl_cons, List.foldl_nil, step_first, Timer.step,
    Timer.register_new 4 rfl rfl]
  set first : Nat → Option (BitVec 32) :=
    Function.update (Function.update (fun _ => none) 3 (some 100)) 4 (some 100) with hdef
  have htimers : first = (waiting 3 none).timers := (Function.update_eq_self 5 first).symm
  show { waiting 3 none with timers := first } = _
  rw [htimers]

theorem waiting_firing : Along (fun t op => op.Possible t) Timer.step (waiting uint32Max (some 7))
    [.onTimer 3, .unregister 1, .register 100 false none, .onTimerNext, .onTimerNext,
      .onTimerEnd] := by
  have hentries : (((waiting uint32Max (some 7)).step (.onTimer 3)).step
      (.unregister 1)).timerToEntries =
        Function.update (waiting uint32Max (some 7)).timerToEntries 1 none := rfl
  refine ⟨trivial, trivial, ⟨fun fd hfd => absurd hfd (by simp), live_le_two fun i hi => ?_⟩,
    trivial, trivial, trivial, trivial⟩
  rw [hentries] at hi
  by_cases h1 : i = 1
  · exact Or.inl h1
  · rw [Function.update_of_ne h1] at hi
    exact waiting_live hi

theorem reuseOps_run {n : Nat} (hn : n ≤ 2 ^ 32 - 5) (hcounter : roundCounter n = uint32Max) :
    Along (fun t op => op.Possible t) Timer.step Timer.new (reuseOps n) ∧
      Timer.new.run (reuseOps n) = (waiting uint32Max (some 7)).run
        [.onTimer 3, .unregister 1, .register 100 false none, .onTimerNext, .onTimerNext,
          .onTimerEnd] := by
  obtain ⟨halong, hrounds⟩ := waiting_rounds hn
  have hpos : n ≠ 0 := by
    rintro rfl
    exact absurd hcounter (by decide)
  rw [if_neg hpos, hcounter, Timer.run] at hrounds
  refine ⟨?_, ?_⟩
  · rw [reuseOps, Along.append, Along.append, List.foldl_append, run_start, hrounds]
    exact ⟨⟨start_possible, halong⟩, waiting_firing⟩
  · rw [reuseOps, Timer.run, List.foldl_append, List.foldl_append, run_start, hrounds, Timer.run]

/-- **An id that comes back during a firing.** The new timer is taken for the one that fired, and
the descriptor it shares with timer 2 is closed and forgotten. -/
theorem reused_id_disagrees :
    Along (fun t op => op.Possible t) Timer.step Timer.new (reuseOps (2 ^ 32 - 5)) ∧
      ¬ Agrees (Timer.new.run (reuseOps (2 ^ 32 - 5))) := by
  obtain ⟨halong, hrun⟩ := reuseOps_run (n := 2 ^ 32 - 5) le_rfl (by decide)
  have hentry : ((waiting uint32Max (some 7)).run
      [.onTimer 3, .unregister 1, .register 100 false none, .onTimerNext, .onTimerNext,
        .onTimerEnd]).timerToEntries 2 = some ⟨2, 100, false, 4⟩ := by decide +kernel
  have htimers : ((waiting uint32Max (some 7)).run
      [.onTimer 3, .unregister 1, .register 100 false none, .onTimerNext, .onTimerNext,
        .onTimerEnd]).timers 4 = none := by decide +kernel
  refine ⟨halong, ?_⟩
  rw [hrun]
  intro h
  have hagrees := h.timers 2 _ hentry
  rw [htimers] at hagrees
  exact absurd hagrees (by simp)

end Reuse

end CUtils.Timers
