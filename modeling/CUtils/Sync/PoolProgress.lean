import CUtils.Sync.ThreadPool

/-!
# The pool keeps going

As long as the pool runs, it does not fall asleep over its queue: whenever there is a task, a worker
is awake or is about to be notified; and a caller sleeps only while the queue is full, or a
notification for it is on its way. No task is lost: each one handed over is in one place.
-/

namespace CUtils.ThreadPools

open Finset Threads StateRun

/-- The worker has made room in the queue and notifies a caller. -/
def WorkerPc.notifies : WorkerPc → Nat
  | .notify _ => 1
  | _ => 0

/-- The caller is about to look whether there is room. -/
def CallerPc.looks : CallerPc → Nat
  | .body _ | .notified _ | .awake _ => 1
  | _ => 0

variable {ω ι : Type} [Fintype ω] [Fintype ι]

structure Lively (s : State ω ι) : Prop where
  up : s.running = true → ∀ w, s.workers w ≠ .exited
  served : s.running = true → s.tasks ≠ [] → (∃ w, s.workers w ≠ .asleep) ∨ ∃ i, s.callers i = .notify
  admitted : ∀ i, (s.callers i).sleeps = true → s.maxTaskNum ≤
    s.tasks.length + ∑ w, (s.workers w).notifies + ∑ j, (s.callers j).looks
  placed : ∀ k, total s k = if k < s.next then 1 else 0

variable [DecidableEq ω] [DecidableEq ι] {s q : State ω ι} {w : ω} {i : ι}

/-! ## One thread goes on -/

omit [DecidableEq ι] in
theorem total_worker {x y : WorkerPc} (hx : s.workers w = x) (hq : SameThreads s q) (k : Nat)
    (hcount : q.executed.count k + q.tasks.count k + y.holds k =
      s.executed.count k + s.tasks.count k + x.holds k) : total (q.setWorker w y) k = total s k := by
  have hsum := sum_update (WorkerPc.holds k) s.workers w y
  rw [hx] at hsum
  unfold total
  simp only [State.setWorker, hq.workers, hq.callers]
  omega

omit [DecidableEq ω] in
theorem total_caller {x y : CallerPc} (hx : s.callers i = x) (hq : SameThreads s q) (k : Nat)
    (hcount : q.executed.count k + q.tasks.count k + y.holds k =
      s.executed.count k + s.tasks.count k + x.holds k) : total (q.setCaller i y) k = total s k := by
  have hsum := sum_update (CallerPc.holds k) s.callers i y
  rw [hx] at hsum
  unfold total
  simp only [State.setCaller, hq.workers, hq.callers]
  omega

omit [DecidableEq ι] in
/-- A worker goes on. It falls asleep only if there is no task. -/
theorem Lively.worker {x y : WorkerPc} (h : Lively s) (hx : s.workers w = x) (hq : SameThreads s q)
    (hy : y ≠ .asleep ∨ q.tasks = []) (hexit : y = .exited → s.running = false)
    (hroom : ∀ j, (s.callers j).sleeps = true → s.maxTaskNum + x.notifies ≤
      q.tasks.length + y.notifies + ∑ u, (s.workers u).notifies + ∑ j, (s.callers j).looks)
    (hcount : ∀ k, q.executed.count k + q.tasks.count k + y.holds k =
      s.executed.count k + s.tasks.count k + x.holds k) : Lively (q.setWorker w y) where
  up hrun u := by
    have hrunning : s.running = true := hq.running ▸ hrun
    show Function.update q.workers w y u ≠ _
    rw [hq.workers]
    refine forall_update (P := fun _ pc => pc ≠ WorkerPc.exited) (fun hy' => ?_)
      (fun v _ => h.up hrunning v) u
    rw [hexit hy'] at hrunning
    cases hrunning
  served _ htasks := by
    refine .inl ⟨w, ?_⟩
    show Function.update q.workers w y w ≠ _
    rw [Function.update_self]
    exact hy.resolve_right htasks
  admitted j hj := by
    have hbefore : (s.callers j).sleeps = true := hq.callers ▸ hj
    have hsum := sum_update WorkerPc.notifies s.workers w y
    have hadmitted := hroom j hbefore
    rw [hx] at hsum
    simp only [State.setWorker, hq.workers, hq.callers, hq.maxTaskNum]
    omega
  placed k := by
    rw [total_worker hx hq k (hcount k), h.placed k]
    simp only [State.setWorker, hq.next]

omit [DecidableEq ω] in
/-- A caller goes on. It does not give up its notification, and falls asleep only over a full queue. -/
theorem Lively.caller {x y : CallerPc} (h : Lively s) (hx : s.callers i = x) (hq : SameThreads s q)
    (hserved : y = .notify ∨ x ≠ .notify ∧ q.tasks = s.tasks)
    (hroom : s.maxTaskNum ≤ q.tasks.length ∨
      y.sleeps = false ∧ s.tasks.length + x.looks ≤ q.tasks.length + y.looks)
    (hcount : ∀ k, q.executed.count k + q.tasks.count k + y.holds k =
      s.executed.count k + s.tasks.count k + x.holds k) : Lively (q.setCaller i y) where
  up hrun u := by
    have hrunning : s.running = true := hq.running ▸ hrun
    show q.workers u ≠ _
    rw [hq.workers]
    exact h.up hrunning u
  served hrun htasks := by
    rcases hserved with rfl | ⟨hx', hsame⟩
    · exact .inr ⟨i, Function.update_self _ _ _⟩
    · have hrunning : s.running = true := hq.running ▸ hrun
      rcases h.served hrunning (hsame ▸ htasks) with ⟨u, hu⟩ | ⟨j, hj⟩
      · refine .inl ⟨u, ?_⟩
        show q.workers u ≠ _
        rw [hq.workers]
        exact hu
      · refine .inr ⟨j, ?_⟩
        have hji : j ≠ i := by
          rintro rfl
          exact hx' (hx.symm.trans hj)
        show Function.update q.callers i y j = _
        rw [Function.update_of_ne hji, hq.callers]
        exact hj
  admitted j hj := by
    have hsum := sum_update CallerPc.looks s.callers i y
    rw [hx] at hsum
    simp only [State.setCaller, hq.workers, hq.callers, hq.maxTaskNum] at hj ⊢
    rcases hroom with hfull | ⟨hy, hroom⟩
    · omega
    · have hji : j ≠ i := by
        rintro rfl
        rw [Function.update_self, hy] at hj
        cases hj
      rw [Function.update_of_ne hji] at hj
      have hadmitted := h.admitted j hj
      omega
  placed k := by
    rw [total_caller hx hq k (hcount k), h.placed k]
    simp only [State.setCaller, hq.next]

/-! ## The workers -/

omit [DecidableEq ι] in
/-- A worker goes on with what it has in its hands, and without a notification to make. -/
theorem Lively.setWorker {x y : WorkerPc} {owner : Option (ω ⊕ ι)} (h : Lively s)
    (hx : s.workers w = x) (hy : y ≠ .asleep ∨ s.tasks = []) (hexit : y = .exited → s.running = false)
    (hnotifies : x.notifies = 0) (hholds : ∀ k, y.holds k = x.holds k) :
    Lively (State.setWorker { s with owner := owner } w y) := by
  refine h.worker hx ⟨rfl, rfl, rfl, rfl, rfl⟩ hy hexit (fun j hj => ?_) fun k => by rw [hholds k]
  have hadmitted := h.admitted j hj
  rw [hnotifies]
  show s.maxTaskNum + 0 ≤ s.tasks.length + _ + _ + _
  omega

omit [DecidableEq ι] in
theorem Lively.lockWorker {x : WorkerPc} (h : Lively s) (hx : s.workers w = x)
    (hnotifies : x.notifies = 0) (hholds : ∀ k, WorkerPc.body.holds k = x.holds k) :
    Lively (s.lockWorker w .body) := by
  unfold State.lockWorker
  cases s.owner with
  | none => exact h.setWorker hx (.inl (by decide)) (fun hy => by cases hy) hnotifies hholds
  | some _ => exact h

omit [DecidableEq ι] in
theorem Lively.scheduleTask (h : Lively s) (hx : s.workers w = .body) : Lively (s.scheduleTask w) := by
  unfold State.scheduleTask
  split
  · rename_i htasks
    split
    · exact h.setWorker hx (.inr htasks) (fun hy => by cases hy) rfl fun _ => rfl
    · exact h.setWorker hx (.inl (by decide)) (fun hy => by cases hy) rfl fun _ => rfl
  · rename_i task rest htasks
    refine h.worker hx ⟨rfl, rfl, rfl, rfl, rfl⟩ (.inl ?_) (fun hy => ?_) (fun j hj => ?_) fun k => ?_
    · split <;> exact fun hy => by cases hy
    · split at hy <;> cases hy
    · have hadmitted := h.admitted j hj
      rw [htasks, List.length_cons] at hadmitted
      show s.maxTaskNum + 0 ≤ rest.length + _ + _ + _
      split
      · show s.maxTaskNum + 0 ≤ rest.length + 1 + _ + _
        omega
      · omega
    · show s.executed.count k + rest.count k + _ = _
      have hholds : (if 0 < s.maxTaskNum then WorkerPc.notify task
          else .unlock (some task)).holds k = if task = k then 1 else 0 := by
        split <;> rfl
      rw [htasks, List.count_cons, hholds]
      simp only [beq_iff_eq, WorkerPc.holds]
      omega

theorem Lively.notifyCaller (h : Lively s) {task : Nat} (hx : s.workers w = .notify task)
    (woken : Option ι) : Lively (s.notifyCaller w task woken) := by
  unfold State.notifyCaller
  split
  · split
    · split
      · rename_i u hsleeps
        cases hu : s.callers u with
        | asleep added =>
            have hwake : Lively (s.setCaller u (.notified added)) := by
              refine h.caller hu ⟨rfl, rfl, rfl, rfl, rfl⟩ (.inr ⟨by simp, rfl⟩)
                (.inr ⟨rfl, Nat.le_succ _⟩) fun _ => rfl
            refine hwake.worker hx ⟨rfl, rfl, rfl, rfl, rfl⟩ (.inl fun hy => by cases hy)
              (fun hy => by cases hy) (fun j _ => ?_) fun _ => rfl
            -- the one that is woken up takes the place of the notification
            have hadmitted := h.admitted u hsleeps
            have hsum := sum_update CallerPc.looks s.callers u (.notified added)
            rw [hu] at hsum
            show s.maxTaskNum + 1 ≤ s.tasks.length + 0 + _ + ∑ j,
              (Function.update s.callers u (.notified added) j).looks
            have hlooks : CallerPc.looks (.notified added) = 1 := rfl
            have hasleep : CallerPc.looks (.asleep added) = 0 := rfl
            rw [hlooks, hasleep] at hsum
            show s.maxTaskNum + 1 ≤ s.tasks.length + 0 + ∑ w, (s.workers w).notifies + _
            omega
        | _ => rw [hu] at hsleeps; cases hsleeps
      · exact h
    · exact h
  · rename_i hnone
    refine h.worker hx ⟨rfl, rfl, rfl, rfl, rfl⟩ (.inl fun hy => by cases hy)
      (fun hy => by cases hy) (fun j hj => absurd ⟨j, hj⟩ hnone) fun _ => rfl

theorem Lively.goWorker (h : Lively s) (w : ω) (woken : Option ι) : Lively (s.goWorker w woken) := by
  unfold State.goWorker
  cases hx : s.workers w with
  | asleep | exited => exact h
  | loop =>
      refine h.setWorker hx (.inl ?_) (fun hy => ?_) rfl fun k => ?_
      · split <;> decide
      · split at hy
        · cases hy
        · simpa using ‹¬ s.running = true›
      · split <;> rfl
  | lock | notified | awake => exact h.lockWorker hx rfl fun _ => rfl
  | body => exact h.scheduleTask hx
  | notify task => exact h.notifyCaller hx woken
  | unlock task =>
      cases task with
      | none => exact h.setWorker hx (.inl (by decide)) (fun hy => by cases hy) rfl fun _ => rfl
      | some task =>
          exact h.setWorker hx (.inl fun hy => by cases hy) (fun hy => by cases hy) rfl fun _ => rfl
  | call task =>
      refine h.worker hx ⟨rfl, rfl, rfl, rfl, rfl⟩ (.inl (by decide)) (fun hy => by cases hy)
        (fun j hj => ?_) fun k => ?_
      · exact (h.admitted j hj).trans (Nat.le_refl _)
      · show (s.executed ++ [task]).count k + s.tasks.count k + 0 = _
        rw [List.count_append, List.count_singleton]
        simp only [beq_iff_eq, WorkerPc.holds]
        omega

/-! ## The callers -/

omit [DecidableEq ω] in
/-- A caller goes on with what it has in its hands. -/
theorem Lively.setCaller {x y : CallerPc} {owner : Option (ω ⊕ ι)} (h : Lively s)
    (hx : s.callers i = x) (hserved : x ≠ .notify) (hsleeps : y.sleeps = false)
    (hlooks : x.looks ≤ y.looks) (hholds : ∀ k, y.holds k = x.holds k) :
    Lively (State.setCaller { s with owner := owner } i y) :=
  h.caller hx ⟨rfl, rfl, rfl, rfl, rfl⟩ (.inr ⟨hserved, rfl⟩)
    (.inr ⟨hsleeps, Nat.add_le_add_left hlooks _⟩) fun k => by rw [hholds k]

omit [DecidableEq ω] in
theorem Lively.lockCaller {x y : CallerPc} (h : Lively s) (hx : s.callers i = x)
    (hserved : x ≠ .notify) (hsleeps : y.sleeps = false) (hlooks : x.looks ≤ y.looks)
    (hholds : ∀ k, y.holds k = x.holds k) : Lively (s.lockCaller i y) := by
  unfold State.lockCaller
  cases s.owner with
  | none => exact h.setCaller hx hserved hsleeps hlooks hholds
  | some _ => exact h

omit [DecidableEq ω] in
theorem Lively.addTask (h : Lively s) {task : Nat} (hx : s.callers i = .body task) :
    Lively (s.addTask i task) := by
  unfold State.addTask
  split
  · rename_i hover
    have hfull : s.maxTaskNum ≤ s.tasks.length := by
      simp only [State.overloaded, Bool.and_eq_true, decide_eq_true_eq] at hover
      exact hover.2
    exact h.caller hx ⟨rfl, rfl, rfl, rfl, rfl⟩ (.inr ⟨by simp, rfl⟩) (.inl hfull) fun _ => rfl
  · refine h.caller hx ⟨rfl, rfl, rfl, rfl, rfl⟩ (.inl rfl) (.inr ⟨rfl, ?_⟩) fun k => ?_
    · show s.tasks.length + 1 ≤ (s.tasks ++ [task]).length + 0
      rw [List.length_append]
      exact Nat.le_refl _
    · show s.executed.count k + (s.tasks ++ [task]).count k + 0 = _
      rw [List.count_append, List.count_singleton]
      simp only [beq_iff_eq, CallerPc.holds]
      omega

omit [DecidableEq ω] in
/-- The notification is made: one worker at least is not asleep now. -/
theorem Lively.notified (h : Lively s) (hx : s.callers i = .notify)
    (hawake : ∃ u, s.workers u ≠ .asleep) : Lively (s.setCaller i .unlock) where
  up := h.up
  served _ _ := .inl hawake
  admitted j hj := by
    have hsum := sum_update CallerPc.looks s.callers i .unlock
    rw [hx] at hsum
    have hsleeps : (Function.update s.callers i CallerPc.unlock j).sleeps = true := hj
    have hji : j ≠ i := by
      rintro rfl
      rw [Function.update_self] at hsleeps
      cases hsleeps
    rw [Function.update_of_ne hji] at hsleeps
    have hadmitted := h.admitted j hsleeps
    show s.maxTaskNum ≤ s.tasks.length + ∑ u, (s.workers u).notifies +
      ∑ j, (Function.update s.callers i .unlock j).looks
    have hsame : CallerPc.unlock.looks = CallerPc.notify.looks := rfl
    rw [hsame] at hsum
    omega
  placed k := by
    rw [total_caller (y := .unlock) hx ⟨rfl, rfl, rfl, rfl, rfl⟩ k rfl]
    exact h.placed k

theorem Lively.notifyWorker [Nonempty ω] (h : Lively s) (hx : s.callers i = .notify)
    (woken : Option ω) : Lively (s.notifyWorker i woken) := by
  unfold State.notifyWorker
  split
  · split
    · split
      · rename_i u hsleeps
        have hwake : Lively (s.setWorker u .notified) :=
          h.setWorker hsleeps (.inl (by decide)) (fun hy => by cases hy) rfl fun _ => rfl
        refine hwake.notified hx ⟨u, ?_⟩
        show Function.update s.workers u .notified u ≠ _
        rw [Function.update_self]
        decide
      · exact h
    · exact h
  · rename_i hnone
    obtain ⟨u⟩ : Nonempty ω := inferInstance
    exact h.notified hx ⟨u, fun hu => hnone ⟨u, hu⟩⟩

omit [DecidableEq ω] [DecidableEq ι] in
theorem Lively.wakeAll (h : Lively s) : Lively { s with workers := fun w => (s.workers w).wake } := by
  have hwake : ∀ u, (s.workers u).wake ≠ .asleep := by
    intro u
    cases s.workers u <;> simp [WorkerPc.wake]
  have hholds : ∀ k u, ((s.workers u).wake).holds k = (s.workers u).holds k := by
    intro k u
    cases s.workers u <;> rfl
  have hnotifies : ∀ u, ((s.workers u).wake).notifies = (s.workers u).notifies := by
    intro u
    cases s.workers u <;> rfl
  refine ⟨fun hrun u hu => ?_, fun hrun htasks => ?_, fun j hj => ?_, fun k => ?_⟩
  · refine h.up hrun u ?_
    cases hpc : s.workers u <;> simp_all [WorkerPc.wake]
  · exact (h.served hrun htasks).imp_left fun ⟨u, _⟩ => ⟨u, hwake u⟩
  · simp only [hnotifies]
    exact h.admitted j hj
  · have hplaced := h.placed k
    unfold total at hplaced ⊢
    simp only [hholds]
    exact hplaced

theorem Lively.goCaller [Nonempty ω] (h : Lively s) (i : ι) (woken : Option ω) :
    Lively (s.goCaller i woken) := by
  unfold State.goCaller
  cases hx : s.callers i with
  | idle | asleep | stopped => exact h
  | lock task => exact h.lockCaller hx (by simp) rfl (Nat.zero_le _) fun _ => rfl
  | notified task | awake task => exact h.lockCaller hx (by simp) rfl (Nat.le_refl _) fun _ => rfl
  | body task => exact h.addTask hx
  | notify => exact h.notifyWorker hx woken
  | unlock => exact h.setCaller hx (by decide) rfl (Nat.le_refl _) fun _ => rfl
  | stopLock => exact h.lockCaller hx (by decide) rfl (Nat.le_refl _) fun _ => rfl
  | stopBody =>
      have hcleared : Lively (State.setCaller s i .stopNotify) :=
        h.setCaller hx (by decide) rfl (Nat.le_refl _) fun _ => rfl
      refine ⟨fun hrun => ?_, fun hrun => ?_, hcleared.admitted, hcleared.placed⟩
      · cases hrun
      · cases hrun
  | stopNotify => exact h.wakeAll.setCaller hx (by decide) rfl (Nat.le_refl _) fun _ => rfl
  | stopUnlock => exact h.setCaller hx (by decide) rfl (Nat.le_refl _) fun _ => rfl
  | join =>
      show Lively (if _ then _ else _)
      split
      · exact h.setCaller hx (by decide) rfl (Nat.le_refl _) fun _ => rfl
      · exact h

/-! ## Runs -/

omit [DecidableEq ω] in
theorem Lively.newTask (h : Lively s) (hx : s.callers i = .idle) :
    Lively (State.setCaller { s with next := s.next + 1 } i (.lock s.next)) := by
  have hlive : Lively (s.setCaller i .idle) :=
    h.setCaller hx (by decide) rfl (Nat.le_refl _) fun _ => rfl
  have hother : ∀ j, Function.update s.callers i (.lock s.next) j = .notify ↔ s.callers j = .notify := by
    intro j
    by_cases hji : j = i
    · rw [hji, Function.update_self, hx]
      simp
    · rw [Function.update_of_ne hji]
  have hsleeps : ∀ j, (Function.update s.callers i (.lock s.next) j).sleeps = (s.callers j).sleeps := by
    intro j
    by_cases hji : j = i
    · rw [hji, Function.update_self, hx]
      rfl
    · rw [Function.update_of_ne hji]
  refine ⟨h.up, fun hrun htasks => ?_, fun j hj => ?_, fun k => ?_⟩
  · exact (h.served hrun htasks).imp_right fun ⟨j, hj⟩ => ⟨j, (hother j).2 hj⟩
  · have hsum := sum_update CallerPc.looks s.callers i (.lock s.next)
    have hadmitted := h.admitted j ((hsleeps j).symm.trans hj)
    rw [hx] at hsum
    have hsame : (CallerPc.lock s.next).looks = CallerPc.idle.looks := rfl
    rw [hsame] at hsum
    show s.maxTaskNum ≤ s.tasks.length + ∑ u, (s.workers u).notifies +
      ∑ j, (Function.update s.callers i (.lock s.next) j).looks
    omega
  · have hsum := sum_update (CallerPc.holds k) s.callers i (.lock s.next)
    have hplaced := h.placed k
    have hidle : CallerPc.idle.holds k = 0 := rfl
    have hlock : (CallerPc.lock s.next).holds k = if s.next = k then 1 else 0 := rfl
    have hnew : (if k < s.next then 1 else 0) + (if s.next = k then 1 else 0) =
        if k < s.next + 1 then 1 else 0 := by
      split_ifs <;> omega
    rw [hx, hidle, hlock, Nat.add_zero] at hsum
    show _ = if k < s.next + 1 then 1 else 0
    rw [← hnew, ← hplaced]
    show s.executed.count k + s.tasks.count k + ∑ u, (s.workers u).holds k +
      ∑ j, (Function.update s.callers i (.lock s.next) j).holds k = _
    rw [hsum, ← Nat.add_assoc]
    rfl

theorem Lively.step [Nonempty ω] (h : Lively s) (a : Act ω ι) : Lively (s.step a) := by
  cases a with
  | addTask i =>
      show Lively (if _ then (if _ then _ else _) else _)
      split
      · rename_i hidle
        rw [if_neg Fintype.card_ne_zero]
        exact h.newTask hidle
      · exact h
  | stop i =>
      show Lively (if _ then _ else _)
      split
      · rename_i hidle
        exact h.caller hidle.1 ⟨rfl, rfl, rfl, rfl, rfl⟩ (.inr ⟨by decide, rfl⟩)
          (.inr ⟨rfl, Nat.le_refl _⟩) fun _ => rfl
      · exact h
  | worker w woken => exact h.goWorker w woken
  | caller i woken => exact h.goCaller i woken
  | spuriousWorker w =>
      show Lively (if _ then _ else _)
      split
      · rename_i hx
        exact h.setWorker hx (.inl (by decide)) (fun hy => by cases hy) rfl fun _ => rfl
      · exact h
  | spuriousCaller i =>
      simp only [State.step]
      split
      · rename_i task hx
        exact h.setCaller hx (by simp) rfl (Nat.zero_le _) fun _ => rfl
      · exact h

omit [DecidableEq ω] [DecidableEq ι] in
theorem Lively.new (maxTaskNum : Nat) : Lively (State.new maxTaskNum : State ω ι) where
  up _ _ := by
    show WorkerPc.loop ≠ .exited
    decide
  served _ htasks := absurd rfl htasks
  admitted _ hj := by cases hj
  placed k := by
    show 0 + 0 + ∑ _w : ω, 0 + ∑ _i : ι, 0 = if k < 0 then 1 else 0
    simp

end CUtils.ThreadPools
