import CUtils.Lib.Threads
import CUtils.Lib.StateRun
import Mathlib.Data.List.Count
import Mathlib.Data.List.Nodup

/-!
# Thread pools

A `ThreadPool` after `Start`: its workers `ω`, and threads `ι` that call `AddTask` and, one of them,
`Stop`. A step of a thread is what it does between two points at which others can come in: taking
the mutex, the part under it, a notification, giving the mutex back, falling asleep, the look of
`WorkInThread` at `running_`, which is outside the mutex, and a task. A wait may end without a
notification.

Tasks have numbers, a new one for each call of `AddTask`; a task does nothing to the pool.
-/

namespace CUtils.ThreadPools

open Finset Threads StateRun

/-- The next step of a worker. -/
inductive WorkerPc
  /-- `while (running_)`. -/
  | loop
  -- `ScheduleTask`
  | lock
  | body
  /-- In `hasTaskToDo_.wait`, not notified. -/
  | asleep
  | notified
  | awake
  /-- It has a task, and notifies one of the callers. -/
  | notify (task : Nat)
  | unlock (task : Option Nat)
  /-- `task()`. -/
  | call (task : Nat)
  | exited
deriving DecidableEq

/-- The next step of a thread outside the pool. -/
inductive CallerPc
  | idle
  -- `AddTask`
  | lock (task : Nat)
  | body (task : Nat)
  /-- In `acceptNewTask_.wait`, not notified. -/
  | asleep (task : Nat)
  | notified (task : Nat)
  | awake (task : Nat)
  | notify
  | unlock
  -- `Stop`
  | stopLock
  | stopBody
  | stopNotify
  | stopUnlock
  | join
  | stopped
deriving DecidableEq

def WorkerPc.wake : WorkerPc → WorkerPc
  | .asleep => .notified
  | pc => pc

def CallerPc.sleeps : CallerPc → Bool
  | .asleep _ => true
  | _ => false

def CallerPc.wake : CallerPc → CallerPc
  | .asleep task => .notified task
  | pc => pc

structure State (ω ι : Type) where
  maxTaskNum : Nat
  running : Bool
  tasks : List Nat
  /-- Who has the mutex. -/
  owner : Option (ω ⊕ ι)
  workers : ω → WorkerPc
  callers : ι → CallerPc
  /-- The number of the next task. -/
  next : Nat
  /-- The tasks that have been called, in this order. -/
  executed : List Nat
  stopCalled : Bool

inductive Act (ω ι : Type)
  | addTask (i : ι)
  | stop (i : ι)
  /-- The next step of a worker; `notify_one` wakes up `woken`. -/
  | worker (w : ω) (woken : Option ι)
  | caller (i : ι) (woken : Option ω)
  | spuriousWorker (w : ω)
  | spuriousCaller (i : ι)

namespace State

variable {ω ι : Type} [DecidableEq ω] [DecidableEq ι]

/-- After `SetMaxTaskNum(maxTaskNum)` and `Start`. -/
def new (maxTaskNum : Nat) : State ω ι where
  maxTaskNum := maxTaskNum
  running := true
  tasks := []
  owner := none
  workers _ := .loop
  callers _ := .idle
  next := 0
  executed := []
  stopCalled := false

def overloaded (s : State ω ι) : Bool := 0 < s.maxTaskNum && s.maxTaskNum ≤ s.tasks.length

def setWorker (s : State ω ι) (w : ω) (pc : WorkerPc) : State ω ι :=
  { s with workers := Function.update s.workers w pc }

def setCaller (s : State ω ι) (i : ι) (pc : CallerPc) : State ω ι :=
  { s with callers := Function.update s.callers i pc }

def lockWorker (s : State ω ι) (w : ω) (pc : WorkerPc) : State ω ι :=
  match s.owner with
  | none => { s with owner := some (.inl w) }.setWorker w pc
  | some _ => s

def lockCaller (s : State ω ι) (i : ι) (pc : CallerPc) : State ω ι :=
  match s.owner with
  | none => { s with owner := some (.inr i) }.setCaller i pc
  | some _ => s

/-- `ScheduleTask` under the mutex. -/
def scheduleTask (s : State ω ι) (w : ω) : State ω ι :=
  match s.tasks with
  | [] =>
      if s.running then { s with owner := none }.setWorker w .asleep
      else s.setWorker w (.unlock none)
  | task :: rest =>
      { s with tasks := rest }.setWorker w
        (if 0 < s.maxTaskNum then .notify task else .unlock (some task))

/-- `AddTask` under the mutex. -/
def addTask (s : State ω ι) (i : ι) (task : Nat) : State ω ι :=
  if s.overloaded then { s with owner := none }.setCaller i (.asleep task)
  else { s with tasks := s.tasks ++ [task] }.setCaller i .notify

variable [Fintype ω] [Fintype ι]

/-- `acceptNewTask_.notify_one()`. If nobody sleeps it does nothing. -/
def notifyCaller (s : State ω ι) (w : ω) (task : Nat) (woken : Option ι) : State ω ι :=
  if ∃ i, (s.callers i).sleeps = true then
    match woken with
    | some i =>
        if (s.callers i).sleeps = true then
          (s.setCaller i (s.callers i).wake).setWorker w (.unlock (some task))
        else s
    | none => s
  else s.setWorker w (.unlock (some task))

/-- `hasTaskToDo_.notify_one()`. -/
def notifyWorker (s : State ω ι) (i : ι) (woken : Option ω) : State ω ι :=
  if ∃ w, s.workers w = .asleep then
    match woken with
    | some w =>
        if s.workers w = .asleep then (s.setWorker w .notified).setCaller i .unlock else s
    | none => s
  else s.setCaller i .unlock

def goWorker (s : State ω ι) (w : ω) (woken : Option ι) : State ω ι :=
  match s.workers w with
  | .asleep | .exited => s
  | .loop => s.setWorker w (if s.running then .lock else .exited)
  | .lock | .notified | .awake => s.lockWorker w .body
  | .body => s.scheduleTask w
  | .notify task => s.notifyCaller w task woken
  | .unlock none => { s with owner := none }.setWorker w .loop
  | .unlock (some task) => { s with owner := none }.setWorker w (.call task)
  | .call task => { s with executed := s.executed ++ [task] }.setWorker w .loop

def goCaller (s : State ω ι) (i : ι) (woken : Option ω) : State ω ι :=
  match s.callers i with
  | .idle | .asleep _ | .stopped => s
  | .lock task | .notified task | .awake task => s.lockCaller i (.body task)
  | .body task => s.addTask i task
  | .notify => s.notifyWorker i woken
  | .unlock => { s with owner := none }.setCaller i .idle
  | .stopLock => s.lockCaller i .stopBody
  | .stopBody => { s with running := false }.setCaller i .stopNotify
  | .stopNotify => { s with workers := fun w => (s.workers w).wake }.setCaller i .stopUnlock
  | .stopUnlock => { s with owner := none }.setCaller i .join
  | .join => if ∀ w, s.workers w = .exited then s.setCaller i .stopped else s

def step (s : State ω ι) : Act ω ι → State ω ι
  | .addTask i =>
      if s.callers i = .idle then
        -- without threads the task is called at once
        if Fintype.card ω = 0 then { s with executed := s.executed ++ [s.next], next := s.next + 1 }
        else { s with next := s.next + 1 }.setCaller i (.lock s.next)
      else s
  | .stop i =>
      if s.callers i = .idle ∧ s.stopCalled = false then
        { s with stopCalled := true }.setCaller i .stopLock
      else s
  | .worker w woken => s.goWorker w woken
  | .caller i woken => s.goCaller i woken
  | .spuriousWorker w => if s.workers w = .asleep then s.setWorker w .awake else s
  | .spuriousCaller i =>
      match s.callers i with
      | .asleep task => s.setCaller i (.awake task)
      | _ => s

def run (s : State ω ι) (as : List (Act ω ι)) : State ω ι := as.foldl step s

end State

/-! ## Where a task is -/

def WorkerPc.holds (k : Nat) : WorkerPc → Nat
  | .notify task | .unlock (some task) | .call task => if task = k then 1 else 0
  | _ => 0

def CallerPc.holds (k : Nat) : CallerPc → Nat
  | .lock task | .body task | .asleep task | .notified task | .awake task => if task = k then 1 else 0
  | _ => 0

/-- `Stop` has cleared `running_`. -/
def CallerPc.stopping : CallerPc → Bool
  | .stopNotify | .stopUnlock | .join | .stopped => true
  | _ => false

variable {ω ι : Type} [Fintype ω] [Fintype ι]

/-- How often the task `k` is anywhere: called, in the queue, or in the hands of a thread. -/
def total (s : State ω ι) (k : Nat) : Nat :=
  s.executed.count k + s.tasks.count k + ∑ w, (s.workers w).holds k + ∑ i, (s.callers i).holds k

structure Inv (s : State ω ι) : Prop where
  bounded : 0 < s.maxTaskNum → s.tasks.length ≤ s.maxTaskNum
  once : ∀ k, total s k ≤ if k < s.next then 1 else 0
  stop : ∀ i, (s.callers i).stopping = true → s.running = false
  calm : s.running = false → ∀ i, (s.callers i).sleeps = false

variable [DecidableEq ω] [DecidableEq ι] {s q : State ω ι} {w : ω} {i : ι}

/-- Everything but the mutex, the queue and what has been called is as before. -/
structure SameThreads (s q : State ω ι) : Prop where
  maxTaskNum : q.maxTaskNum = s.maxTaskNum
  running : q.running = s.running
  workers : q.workers = s.workers
  callers : q.callers = s.callers
  next : q.next = s.next

omit [DecidableEq ι] in
/-- A worker goes on, and the tasks move along with it. -/
theorem Inv.worker {x y : WorkerPc} (h : Inv s) (hx : s.workers w = x) (hq : SameThreads s q)
    (hlen : q.tasks.length ≤ s.tasks.length)
    (hcount : ∀ k, q.executed.count k + q.tasks.count k + y.holds k =
      s.executed.count k + s.tasks.count k + x.holds k) : Inv (q.setWorker w y) where
  bounded hpos := by
    have hmax : 0 < s.maxTaskNum := hq.maxTaskNum ▸ hpos
    exact hlen.trans ((h.bounded hmax).trans_eq hq.maxTaskNum.symm)
  once k := by
    have hsum := sum_update (WorkerPc.holds k) s.workers w y
    have honce := h.once k
    have hk := hcount k
    rw [hx] at hsum
    unfold total at honce ⊢
    simp only [State.setWorker, hq.workers, hq.callers, hq.next]
    omega
  stop j hj := by
    have hbefore : (s.callers j).stopping = true := hq.callers ▸ hj
    exact hq.running.trans (h.stop j hbefore)
  calm hrun j := by
    have hbefore : s.running = false := hq.running ▸ hrun
    show (q.callers j).sleeps = false
    rw [hq.callers]
    exact h.calm hbefore j

omit [DecidableEq ω] in
/-- A thread outside the pool goes on. -/
theorem Inv.caller {x y : CallerPc} (h : Inv s) (hx : s.callers i = x) (hq : SameThreads s q)
    (hbounded : 0 < s.maxTaskNum → q.tasks.length ≤ s.maxTaskNum)
    (hcount : ∀ k, q.executed.count k + q.tasks.count k + y.holds k =
      s.executed.count k + s.tasks.count k + x.holds k)
    (hstop : y.stopping = true → s.running = false) (hcalm : y.sleeps = true → s.running = true) :
    Inv (q.setCaller i y) where
  bounded hpos := by
    have hmax : 0 < s.maxTaskNum := hq.maxTaskNum ▸ hpos
    exact (hbounded hmax).trans_eq hq.maxTaskNum.symm
  once k := by
    have hsum := sum_update (CallerPc.holds k) s.callers i y
    have honce := h.once k
    have hk := hcount k
    rw [hx] at hsum
    unfold total at honce ⊢
    simp only [State.setCaller, hq.workers, hq.callers, hq.next]
    omega
  stop j hj := by
    refine hq.running.trans ?_
    by_cases hji : j = i
    · have hself : (Function.update q.callers i y i).stopping = true := hji ▸ hj
      rw [Function.update_self] at hself
      exact hstop hself
    · have hother : (Function.update q.callers i y j).stopping = true := hj
      rw [Function.update_of_ne hji, hq.callers] at hother
      exact h.stop j hother
  calm hrun j := by
    have hbefore : s.running = false := hq.running ▸ hrun
    show (Function.update q.callers i y j).sleeps = false
    by_cases hji : j = i
    · rw [hji, Function.update_self]
      cases hsleeps : y.sleeps with
      | false => rfl
      | true =>
          have hrunning := hcalm hsleeps
          rw [hbefore] at hrunning
          cases hrunning
    · rw [Function.update_of_ne hji, hq.callers]
      exact h.calm hbefore j

/-! ## The workers -/

omit [DecidableEq ι] in
/-- A worker goes on with what it has in its hands. -/
theorem Inv.setWorker {x y : WorkerPc} {owner : Option (ω ⊕ ι)} (h : Inv s) (hx : s.workers w = x)
    (hholds : ∀ k, y.holds k = x.holds k) : Inv (State.setWorker { s with owner := owner } w y) :=
  h.worker hx ⟨rfl, rfl, rfl, rfl, rfl⟩ le_rfl fun k => by rw [hholds k]

omit [DecidableEq ω] in
theorem Inv.setCaller {x y : CallerPc} {owner : Option (ω ⊕ ι)} (h : Inv s) (hx : s.callers i = x)
    (hholds : ∀ k, y.holds k = x.holds k) (hstop : y.stopping = true → x.stopping = true)
    (hsleeps : y.sleeps = true → s.running = true) :
    Inv (State.setCaller { s with owner := owner } i y) := by
  refine h.caller hx ⟨rfl, rfl, rfl, rfl, rfl⟩ h.bounded (fun k => by rw [hholds k]) ?_ hsleeps
  intro hy
  exact h.stop i (by rw [hx]; exact hstop hy)

omit [DecidableEq ι] in
theorem Inv.lockWorker {x : WorkerPc} (h : Inv s) (hx : s.workers w = x)
    (hholds : ∀ k, WorkerPc.body.holds k = x.holds k) : Inv (s.lockWorker w .body) := by
  unfold State.lockWorker
  cases s.owner with
  | none => exact h.setWorker hx hholds
  | some _ => exact h

omit [DecidableEq ι] in
theorem Inv.scheduleTask (h : Inv s) (hx : s.workers w = .body) : Inv (s.scheduleTask w) := by
  unfold State.scheduleTask
  split
  · split
    · exact h.setWorker hx fun _ => rfl
    · exact h.setWorker hx fun _ => rfl
  · rename_i task rest htasks
    have hholds : ∀ k, (if 0 < s.maxTaskNum then WorkerPc.notify task
        else .unlock (some task)).holds k = if task = k then 1 else 0 := by
      intro k
      split <;> rfl
    refine h.worker hx ⟨rfl, rfl, rfl, rfl, rfl⟩ ?_ fun k => ?_
    · show rest.length ≤ s.tasks.length
      rw [htasks]
      exact Nat.le_succ _
    · show s.executed.count k + rest.count k + _ = _
      rw [htasks, List.count_cons, hholds]
      simp only [beq_iff_eq, WorkerPc.holds]
      omega

theorem Inv.notifyCaller (h : Inv s) {task : Nat} (hx : s.workers w = .notify task)
    (woken : Option ι) : Inv (s.notifyCaller w task woken) := by
  unfold State.notifyCaller
  split
  · split
    · split
      · rename_i u hsleeps
        have hwake : Inv (s.setCaller u (s.callers u).wake) := by
          cases hu : s.callers u with
          | asleep task => exact h.setCaller hu (fun _ => rfl) nofun nofun
          | _ => rw [hu] at hsleeps; cases hsleeps
        exact hwake.setWorker hx fun _ => rfl
      · exact h
    · exact h
  · exact h.setWorker hx fun _ => rfl

theorem Inv.goWorker (h : Inv s) (w : ω) (woken : Option ι) : Inv (s.goWorker w woken) := by
  unfold State.goWorker
  cases hx : s.workers w with
  | asleep => exact h
  | exited => exact h
  | loop =>
      refine h.setWorker hx fun k => ?_
      split <;> rfl
  | lock => exact h.lockWorker hx fun _ => rfl
  | notified => exact h.lockWorker hx fun _ => rfl
  | awake => exact h.lockWorker hx fun _ => rfl
  | body => exact h.scheduleTask hx
  | notify task => exact h.notifyCaller hx woken
  | unlock task =>
      cases task with
      | none => exact h.setWorker hx fun _ => rfl
      | some task => exact h.setWorker hx fun _ => rfl
  | call task =>
      refine h.worker hx ⟨rfl, rfl, rfl, rfl, rfl⟩ le_rfl fun k => ?_
      show (s.executed ++ [task]).count k + s.tasks.count k + 0 = _
      rw [List.count_append, List.count_singleton]
      simp only [beq_iff_eq, WorkerPc.holds]
      omega

/-! ## The callers -/

/-- `Stop` does not come while a caller sleeps, and no caller falls asleep after it. -/
def Unhurried (s : State ω ι) : Act ω ι → Prop
  | .caller i _ =>
      match s.callers i with
      | .stopBody => ∀ u, (s.callers u).sleeps = false
      | .body _ => s.overloaded = true → s.running = true
      | _ => True
  | _ => True

omit [DecidableEq ω] in
theorem Inv.lockCaller {x y : CallerPc} (h : Inv s) (hx : s.callers i = x)
    (hholds : ∀ k, y.holds k = x.holds k) (hstop : y.stopping = false) (hsleeps : y.sleeps = false) :
    Inv (s.lockCaller i y) := by
  unfold State.lockCaller
  cases s.owner with
  | none =>
      refine h.setCaller hx hholds (fun hy => ?_) fun hy => ?_
      · rw [hstop] at hy
        cases hy
      · rw [hsleeps] at hy
        cases hy
  | some _ => exact h

omit [DecidableEq ω] in
theorem Inv.addTask (h : Inv s) {task : Nat} (hx : s.callers i = .body task)
    (hrun : s.overloaded = true → s.running = true) : Inv (s.addTask i task) := by
  unfold State.addTask
  split
  · rename_i hover
    exact h.setCaller hx (fun _ => rfl) nofun fun _ => hrun hover
  · rename_i hroom
    refine h.caller hx ⟨rfl, rfl, rfl, rfl, rfl⟩ (fun hpos => ?_) (fun k => ?_) nofun nofun
    · show (s.tasks ++ [task]).length ≤ s.maxTaskNum
      have hlt : s.tasks.length < s.maxTaskNum := by
        simpa [State.overloaded, hpos] using hroom
      rw [List.length_append]
      exact hlt
    · show s.executed.count k + (s.tasks ++ [task]).count k + 0 = _
      rw [List.count_append, List.count_singleton]
      simp only [beq_iff_eq, CallerPc.holds]
      omega

theorem Inv.notifyWorker (h : Inv s) (hx : s.callers i = .notify) (woken : Option ω) :
    Inv (s.notifyWorker i woken) := by
  unfold State.notifyWorker
  split
  · split
    · split
      · rename_i u hsleeps
        have hwake : Inv (s.setWorker u .notified) := h.setWorker hsleeps fun _ => rfl
        exact hwake.setCaller hx (fun _ => rfl) nofun nofun
      · exact h
    · exact h
  · exact h.setCaller hx (fun _ => rfl) nofun nofun

omit [DecidableEq ω] in
/-- `running_` is cleared while nobody sleeps. -/
theorem Inv.clear (h : Inv s) (hx : s.callers i = .stopBody)
    (hawake : ∀ u, (s.callers u).sleeps = false) :
    Inv (State.setCaller { s with running := false } i .stopNotify) where
  bounded := h.bounded
  once k := by
    have hsum := sum_update (CallerPc.holds k) s.callers i .stopNotify
    have honce := h.once k
    have hsame : CallerPc.stopNotify.holds k = CallerPc.stopBody.holds k := rfl
    rw [hx, hsame, Nat.add_right_cancel_iff] at hsum
    unfold total at honce ⊢
    simp only [State.setCaller]
    rw [hsum]
    exact honce
  stop _ _ := rfl
  calm _ j := by
    show (Function.update s.callers i .stopNotify j).sleeps = false
    by_cases hji : j = i
    · rw [hji, Function.update_self]
      rfl
    · rw [Function.update_of_ne hji]
      exact hawake j

omit [DecidableEq ω] [DecidableEq ι] in
theorem Inv.wakeAll (h : Inv s) : Inv { s with workers := fun w => (s.workers w).wake } where
  bounded := h.bounded
  once k := by
    have hholds : ∀ w, ((s.workers w).wake).holds k = (s.workers w).holds k := by
      intro w
      cases s.workers w <;> rfl
    have honce := h.once k
    unfold total at honce ⊢
    simp only [hholds]
    exact honce
  stop := h.stop
  calm := h.calm

theorem Inv.goCaller (h : Inv s) {woken : Option ω} (ha : Unhurried s (.caller i woken)) :
    Inv (s.goCaller i woken) := by
  unfold Unhurried at ha
  unfold State.goCaller
  cases hx : s.callers i with
  | idle => exact h
  | asleep task => exact h
  | stopped => exact h
  | lock task => exact h.lockCaller hx (fun _ => rfl) rfl rfl
  | notified task => exact h.lockCaller hx (fun _ => rfl) rfl rfl
  | awake task => exact h.lockCaller hx (fun _ => rfl) rfl rfl
  | body task =>
      simp only [hx] at ha
      exact h.addTask hx ha
  | notify => exact h.notifyWorker hx woken
  | unlock => exact h.setCaller hx (fun _ => rfl) nofun nofun
  | stopLock => exact h.lockCaller hx (fun _ => rfl) rfl rfl
  | stopBody =>
      simp only [hx] at ha
      exact h.clear hx ha
  | stopNotify => exact h.wakeAll.setCaller hx (fun _ => rfl) (fun _ => rfl) nofun
  | stopUnlock => exact h.setCaller hx (fun _ => rfl) (fun _ => rfl) nofun
  | join =>
      show Inv (if _ then _ else _)
      split
      · exact h.setCaller hx (fun _ => rfl) (fun _ => rfl) nofun
      · exact h

/-! ## Runs -/

omit [DecidableEq ω] in
/-- A new task is in the hands of its caller, or has been called. -/
theorem Inv.newTask (h : Inv s) (hx : s.callers i = .idle) :
    Inv (State.setCaller { s with next := s.next + 1 } i (.lock s.next)) ∧
      Inv { s with executed := s.executed ++ [s.next], next := s.next + 1 } := by
  have hnew : ∀ k, total s k + (if s.next = k then 1 else 0) ≤ if k < s.next + 1 then 1 else 0 := by
    intro k
    have honce := h.once k
    split at honce <;> split <;> split <;> omega
  constructor
  · refine ⟨h.bounded, fun k => ?_, fun j hj => ?_, fun hrun j => ?_⟩
    · refine le_of_eq_of_le ?_ (hnew k)
      have hsum := sum_update (CallerPc.holds k) s.callers i (.lock s.next)
      have hidle : CallerPc.idle.holds k = 0 := rfl
      have hlock : (CallerPc.lock s.next).holds k = if s.next = k then 1 else 0 := rfl
      rw [hx, hidle, hlock, Nat.add_zero] at hsum
      unfold total
      simp only [State.setCaller]
      rw [hsum]
      omega
    · by_cases hji : j = i
      · have hself : (Function.update s.callers i (.lock s.next) i).stopping = true := hji ▸ hj
        rw [Function.update_self] at hself
        cases hself
      · have hother : (Function.update s.callers i (.lock s.next) j).stopping = true := hj
        rw [Function.update_of_ne hji] at hother
        exact h.stop j hother
    · show (Function.update s.callers i (.lock s.next) j).sleeps = false
      by_cases hji : j = i
      · rw [hji, Function.update_self]
        rfl
      · rw [Function.update_of_ne hji]
        exact h.calm hrun j
  · refine ⟨h.bounded, fun k => ?_, h.stop, h.calm⟩
    have hk := hnew k
    unfold total at hk ⊢
    simp only [List.count_append, List.count_singleton, beq_iff_eq]
    omega

theorem Inv.step (h : Inv s) (a : Act ω ι) (ha : Unhurried s a) : Inv (s.step a) := by
  cases a with
  | addTask i =>
      show Inv (if _ then (if _ then _ else _) else _)
      split
      · rename_i hidle
        split
        · exact (h.newTask hidle).2
        · exact (h.newTask hidle).1
      · exact h
  | stop i =>
      show Inv (if _ then _ else _)
      split
      · rename_i hidle
        exact h.caller hidle.1 ⟨rfl, rfl, rfl, rfl, rfl⟩ h.bounded (fun _ => rfl) nofun nofun
      · exact h
  | worker w woken => exact h.goWorker w woken
  | caller i woken => exact h.goCaller ha
  | spuriousWorker w =>
      show Inv (if _ then _ else _)
      split
      · rename_i hx
        exact h.setWorker hx fun _ => rfl
      · exact h
  | spuriousCaller i =>
      simp only [State.step]
      split
      · rename_i task hx
        exact h.setCaller hx (fun _ => rfl) nofun nofun
      · exact h

omit [DecidableEq ω] [DecidableEq ι] in
theorem Inv.new (maxTaskNum : Nat) : Inv (State.new maxTaskNum : State ω ι) where
  bounded _ := Nat.zero_le _
  once k := by
    show 0 + 0 + ∑ _w : ω, 0 + ∑ _i : ι, 0 ≤ 0
    simp
  stop _ h := absurd h nofun
  calm _ _ := rfl

/-- The queue keeps to its size, no task is called twice, and no thread sleeps on
`acceptNewTask_` when `Stop` has returned. -/
structure Orderly (s : State ω ι) : Prop where
  bounded : 0 < s.maxTaskNum → s.tasks.length ≤ s.maxTaskNum
  once : s.executed.Nodup
  released : ∀ i, s.callers i = .stopped → ∀ u, (s.callers u).sleeps = false

/-- **`Stop` strands no caller**, as long as it is not called while one sleeps and none falls asleep
after it. -/
theorem stop_strands_none (maxTaskNum : Nat) (as : List (Act ω ι))
    (has : Along Unhurried State.step (State.new maxTaskNum) as) :
    Orderly ((State.new maxTaskNum).run as) := by
  have hinv : Inv ((State.new maxTaskNum).run as) :=
    has.invariant (I := Inv) (fun s a ha h => h.step a ha) (Inv.new maxTaskNum)
  refine ⟨hinv.bounded, List.nodup_iff_count_le_one.2 fun k => ?_, fun i hi => ?_⟩
  · have honce := hinv.once k
    unfold total at honce
    split at honce <;> omega
  · refine hinv.calm (hinv.stop i ?_)
    rw [hi]
    rfl

/-- A task is added and called, and the pool is stopped. -/
def oneTask : List (Act Unit Bool) :=
  [.addTask false, .caller false none, .caller false none, .caller false none, .caller false none,
    .worker () none, .worker () none, .worker () none, .worker () none, .worker () none,
    .worker () none, .stop true, .caller true none, .caller true none, .caller true none,
    .caller true none, .worker () none, .caller true none]

theorem stop_strands_none_oneTask :
    ((State.new 1).run oneTask).executed = [0] ∧ ((State.new 1).run oneTask).callers true = .stopped ∧
      Orderly ((State.new 1).run oneTask) := by
  refine ⟨by decide, by decide, stop_strands_none 1 oneTask ?_⟩
  refine ⟨trivial, trivial, fun _ => rfl, trivial, trivial, trivial, trivial, trivial, trivial, trivial,
    trivial, trivial, trivial, ?_, trivial, trivial, trivial, trivial, trivial⟩
  intro u
  cases u <;> rfl

/-- The queue is full and a caller sleeps; the worker leaves without taking a task. -/
def stranded : List (Act Unit Bool) :=
  [.addTask false, .caller false none, .caller false none, .caller false none, .caller false none,
    .addTask false, .caller false none, .caller false none, .stop true, .caller true none,
    .caller true none, .caller true none, .caller true none, .worker () none, .caller true none]

theorem caller_stranded : ¬ ∀ as : List (Act Unit Bool), Orderly ((State.new 1).run as) := by
  intro h
  exact absurd ((h stranded).released true (by decide) false) (by decide)

end CUtils.ThreadPools
