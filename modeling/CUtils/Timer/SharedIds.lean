import CUtils.Timer.Ids
import CUtils.Lib.StateRun

/-!
# The ids of several timers

The static `timerId` of `Register` is one for all the timers of a process, and a call holds the mutex
of its own timer only. So the calls on different timers take turns at every access to the static:
each load, store and increment is one step. What a timer's other operations do they do with its
mutex held, and without the static.

A call relies on the static between its `timerId = GetValidId(timerId)` and the increment that
follows (`Pc.exposed`). It hands out a good id as long as no other call changes the static there.
-/

namespace CUtils.Timers

open StateRun

/-- What `Register` has got together before it looks for an id. -/
structure Request where
  interval : BitVec 32
  once : Bool
  timerFd : Nat
deriving DecidableEq

/-- The next step of the call of `Register` on a timer, if there is one. -/
inductive Pc
  | idle
  /-- The load of `timerId = GetValidId(timerId)`. -/
  | load (request : Request)
  /-- The store of it. -/
  | store (request : Request) (value : Id)
  /-- `timerToEntries_.find(timerId)` -/
  | find (request : Request)
  /-- `timerId++` in the loop. -/
  | next (request : Request)
  /-- `entry->timerId = timerId++` -/
  | take (request : Request)
  | insert (request : Request) (timerId : Id)
deriving DecidableEq

/-- The timers of a process. The field `timerId` of their tables stands for the static where there
is one timer only; here it is not looked at. -/
structure Process (τ : Type) where
  timerId : Id
  timers : τ → Timer
  pcs : τ → Pc

inductive Act
  | register (interval : BitVec 32) (once : Bool) (create : Option Nat)
  | unregister (timerId : Id)
  | onTimer (timerFd : Nat)
  | onTimerNext
  | onTimerEnd
  /-- The call of `Register` goes on. -/
  | go

/-- `Register` up to its search for an id. -/
def Timer.place (t : Timer) (interval : BitVec 32) (once : Bool) (create : Option Nat) :
    Option (Nat × Timer) :=
  match if once then none else t.getTimerFd interval with
  | some timerFd => some (timerFd, t)
  | none => t.doRegister interval create

namespace Process

variable {τ : Type} [DecidableEq τ]

def new : Process τ where
  timerId := 1
  timers _ := Timer.new
  pcs _ := .idle

def goto (p : Process τ) (a : τ) (pc : Pc) : Process τ := { p with pcs := Function.update p.pcs a pc }

def setTimer (p : Process τ) (a : τ) (t : Timer) : Process τ :=
  { p with timers := Function.update p.timers a t }

def go (p : Process τ) (a : τ) : Process τ :=
  match p.pcs a with
  | .idle => p
  | .load request => p.goto a (.store request (Timer.getValidId p.timerId))
  | .store request value => { p with timerId := value }.goto a (.find request)
  | .find request =>
      p.goto a (if ((p.timers a).timerToEntries p.timerId).isSome then .next request
        else .take request)
  | .next request => { p with timerId := p.timerId + 1 }.goto a (.load request)
  | .take request => { p with timerId := p.timerId + 1 }.goto a (.insert request p.timerId)
  | .insert request timerId =>
      (p.setTimer a ((p.timers a).addEntry
        ⟨timerId, request.interval, request.once, request.timerFd⟩)).goto a .idle

/-- `Register` has the mutex; if no descriptor can be had, it returns at once. -/
def register (p : Process τ) (a : τ) (interval : BitVec 32) (once : Bool) (create : Option Nat) :
    Process τ :=
  match (p.timers a).place interval once create with
  | none => p
  | some (timerFd, t) => (p.setTimer a t).goto a (.load ⟨interval, once, timerFd⟩)

/-- An operation that needs the mutex waits for a call of `Register` to end. -/
def locked (p : Process τ) (a : τ) (q : Process τ) : Process τ := if p.pcs a = .idle then q else p

def step (p : Process τ) : τ × Act → Process τ
  | (a, .register interval once create) => p.locked a (p.register a interval once create)
  | (a, .unregister timerId) => p.locked a (p.setTimer a ((p.timers a).unregister timerId))
  | (a, .onTimer timerFd) => p.locked a (p.setTimer a ((p.timers a).onTimer timerFd))
  | (a, .onTimerNext) => p.setTimer a (p.timers a).onTimerNext
  | (a, .onTimerEnd) => p.locked a (p.setTimer a (p.timers a).onTimerEnd)
  | (a, .go) => p.go a

def run (p : Process τ) (as : List (τ × Act)) : Process τ := as.foldl step p

/-- What the next step of the call on `a` makes of the static. -/
def writes (p : Process τ) (a : τ) : Id :=
  match p.pcs a with
  | .store _ value => value
  | .next _ | .take _ => p.timerId + 1
  | _ => p.timerId

end Process

/-- The call relies on the static. -/
def Pc.exposed : Pc → Bool
  | .find _ | .next _ | .take _ => true
  | _ => false

variable {τ : Type} [DecidableEq τ] {p p' : Process τ} {a b : τ}

/-- The static does not change while a call on another timer relies on it. -/
def Undisturbing (p : Process τ) : τ × Act → Prop
  | (a, .go) => p.writes a ≠ p.timerId → ∀ b, b ≠ a → (p.pcs b).exposed = false
  | _ => True

/-! ## The invariant -/

/-- What a call knows about the static, the ids it has got, and the entries of its timer. -/
def Pc.Ok (timerId : Id) (entries : Id → Option Entry) : Pc → Prop
  | .idle | .load _ => True
  | .store _ value => ValidId value
  | .find _ | .next _ => ValidId timerId
  | .take _ => ValidId timerId ∧ entries timerId = none
  | .insert _ i => ValidId i ∧ entries i = none

structure SharedInv (p : Process τ) : Prop where
  counter : p.timerId ≠ 0
  ok : ∀ a, (p.pcs a).Ok p.timerId (p.timers a).timerToEntries

theorem Pc.Ok.of_not_exposed {pc : Pc} {i j : Id} {entries : Id → Option Entry}
    (hpc : pc.exposed = false) (h : pc.Ok i entries) : pc.Ok j entries := by
  cases pc with
  | find | next | take => cases hpc
  | idle | load | store | insert => exact h

/-- One timer's step. -/
theorem SharedInv.moves (h : SharedInv p) {pc : Pc} (hpcs : p'.pcs = Function.update p.pcs a pc)
    (htimers : ∀ b, b ≠ a → p'.timers b = p.timers b) (hcounter : p'.timerId ≠ 0)
    (hothers : p'.timerId ≠ p.timerId → ∀ b, b ≠ a → (p.pcs b).exposed = false)
    (hok : pc.Ok p'.timerId (p'.timers a).timerToEntries) : SharedInv p' := by
  refine ⟨hcounter, fun b => ?_⟩
  rw [hpcs]
  by_cases hba : b = a
  · rw [hba, Function.update_self]
    exact hok
  · rw [Function.update_of_ne hba, htimers b hba]
    by_cases hsame : p'.timerId = p.timerId
    · rw [hsame]
      exact h.ok b
    · exact (h.ok b).of_not_exposed (hothers hsame b hba)

theorem SharedInv.go (h : SharedInv p) (hquiet : Undisturbing p (a, .go)) : SharedInv (p.go a) := by
  have hok := h.ok a
  have hquiet : p.writes a ≠ p.timerId → ∀ b, b ≠ a → (p.pcs b).exposed = false := hquiet
  unfold Process.go
  unfold Process.writes at hquiet
  cases hpc : p.pcs a with
  | idle => exact h
  | load request =>
      exact h.moves rfl (fun _ _ => rfl) h.counter (fun hne => absurd rfl hne)
        (validId_getValidId h.counter)
  | store request value =>
      rw [hpc] at hok hquiet
      have hzero : value ≠ 0 := hok.pos
      exact h.moves rfl (fun _ _ => rfl) hzero hquiet hok
  | find request =>
      rw [hpc] at hok
      dsimp only
      by_cases hlive : ((p.timers a).timerToEntries p.timerId).isSome = true
      · rw [if_pos hlive]
        exact h.moves rfl (fun _ _ => rfl) h.counter (fun hne => absurd rfl hne) hok
      · rw [if_neg hlive]
        exact h.moves rfl (fun _ _ => rfl) h.counter (fun hne => absurd rfl hne)
          ⟨hok, Option.not_isSome_iff_eq_none.1 hlive⟩
  | next request =>
      rw [hpc] at hok hquiet
      exact h.moves rfl (fun _ _ => rfl) hok.succ_ne_zero hquiet trivial
  | take request =>
      rw [hpc] at hok hquiet
      exact h.moves rfl (fun _ _ => rfl) hok.1.succ_ne_zero hquiet hok
  | insert request timerId =>
      exact h.moves rfl (fun b hba => Function.update_of_ne hba _ _) h.counter
        (fun hne => absurd rfl hne) trivial

/-- What is done with the mutex held and without the static. -/
theorem SharedInv.setTimer (h : SharedInv p) (t : Timer)
    (hok : (p.pcs a).Ok p.timerId t.timerToEntries) : SharedInv (p.setTimer a t) := by
  have hpcs : (p.setTimer a t).pcs = Function.update p.pcs a (p.pcs a) :=
    (Function.update_eq_self a p.pcs).symm
  refine h.moves hpcs (fun b hba => Function.update_of_ne hba _ _) h.counter
    (fun hne => absurd rfl hne) ?_
  show (p.pcs a).Ok p.timerId (Function.update p.timers a t a).timerToEntries
  rw [Function.update_self]
  exact hok

omit [DecidableEq τ] in
theorem SharedInv.locked (h : SharedInv p) (hp' : p.pcs a = .idle → SharedInv p') :
    SharedInv (p.locked a p') := by
  unfold Process.locked
  split
  · rename_i hidle
    exact hp' hidle
  · exact h

theorem Timer.onTimerNext_timerToEntries (t : Timer) :
    t.onTimerNext.timerToEntries = t.timerToEntries := by
  unfold Timer.onTimerNext
  split <;> rfl

theorem SharedInv.register (h : SharedInv p) (interval : BitVec 32) (once : Bool)
    (create : Option Nat) : SharedInv (p.register a interval once create) := by
  unfold Process.register
  split
  · exact h
  · exact h.moves rfl (fun b hba => Function.update_of_ne hba _ _) h.counter
      (fun hne => absurd rfl hne) trivial

theorem SharedInv.step (h : SharedInv p) (act : τ × Act) (hquiet : Undisturbing p act) :
    SharedInv (p.step act) := by
  obtain ⟨a, act⟩ := act
  have hidle : ∀ t, SharedInv (p.locked a (p.setTimer a t)) := by
    intro t
    refine h.locked fun hpc => h.setTimer t ?_
    rw [hpc]
    trivial
  cases act with
  | register interval once create => exact h.locked fun _ => h.register interval once create
  | unregister timerId => exact hidle _
  | onTimer timerFd => exact hidle _
  | onTimerNext =>
      refine h.setTimer _ ?_
      rw [Timer.onTimerNext_timerToEntries]
      exact h.ok a
  | onTimerEnd => exact hidle _
  | go => exact h.go hquiet

omit [DecidableEq τ] in
theorem SharedInv.new : SharedInv (Process.new : Process τ) := by
  refine ⟨?_, fun _ => trivial⟩
  show (1 : Id) ≠ 0
  decide

/-! ## A call that is not interrupted

Without calls on other timers the steps make up `Timer.register`.
-/

theorem run_goes (p : Process τ) (a : τ) (k n : Nat) :
    p.run (List.replicate (k + n) (a, .go)) =
      (p.run (List.replicate k (a, .go))).run (List.replicate n (a, .go)) := by
  rw [List.replicate_add, Process.run, List.foldl_append]
  rfl

/-- An id that is in use: the loop comes round to the next valid one. -/
theorem run_search_round (request : Request) (hpc : p.pcs a = .find request)
    (hlive : ((p.timers a).timerToEntries p.timerId).isSome = true) :
    p.run (List.replicate 4 (a, .go)) =
      { p with timerId := Timer.getValidId (p.timerId + 1) }.goto a (.find request) := by
  have hfind : p.go a = p.goto a (.next request) := by
    rw [Process.go, hpc]
    exact congrArg (p.goto a) (if_pos hlive)
  have hnext : (p.goto a (.next request)).go a =
      { p with timerId := p.timerId + 1 }.goto a (.load request) := by
    simp [Process.go, Process.goto]
  have hload : ({ p with timerId := p.timerId + 1 }.goto a (.load request)).go a =
      { p with timerId := p.timerId + 1 }.goto a
        (.store request (Timer.getValidId (p.timerId + 1))) := by
    simp [Process.go, Process.goto]
  have hstore : ({ p with timerId := p.timerId + 1 }.goto a
      (.store request (Timer.getValidId (p.timerId + 1)))).go a =
        { p with timerId := Timer.getValidId (p.timerId + 1) }.goto a (.find request) := by
    simp [Process.go, Process.goto]
  show (((p.go a).go a).go a).go a = _
  rw [hfind, hnext, hload, hstore]

/-- The search for an id, from a value that is in the static. -/
theorem run_search (request : Request) {n : Nat} {j : Id} (hpc : p.pcs a = .find request)
    (hsearch : (p.timers a).searchId n p.timerId = some j) :
    ∃ k, p.run (List.replicate k (a, .go)) = { p with timerId := j }.goto a (.take request) := by
  induction n generalizing p with
  | zero => cases hsearch
  | succ n ih =>
      rw [Timer.searchId] at hsearch
      by_cases hlive : ((p.timers a).timerToEntries p.timerId).isSome = true
      · rw [if_pos hlive] at hsearch
        have hround := run_search_round request hpc hlive
        obtain ⟨k, hk⟩ := ih (p := { p with timerId := Timer.getValidId (p.timerId + 1) }.goto a
          (.find request)) (Function.update_self _ _ _) hsearch
        refine ⟨4 + k, ?_⟩
        rw [run_goes, hround, hk]
        simp [Process.goto]
      · rw [if_neg hlive] at hsearch
        obtain rfl := Option.some.inj hsearch
        refine ⟨1, ?_⟩
        show p.go a = _
        rw [Process.go, hpc]
        exact congrArg (p.goto a) (if_neg hlive)

/-- From the first load to the entry, when the search finds `i`. -/
theorem run_load (request : Request) {i : Id} (hpc : p.pcs a = .load request)
    (hsearch : (p.timers a).searchId (2 ^ 32) (Timer.getValidId p.timerId) = some i) :
    ∃ k, p.run (List.replicate k (a, .go)) =
      ({ p with timerId := i + 1 }.setTimer a ((p.timers a).addEntry
        ⟨i, request.interval, request.once, request.timerFd⟩)).goto a .idle := by
  have hload : p.run (List.replicate 2 (a, .go)) =
      { p with timerId := Timer.getValidId p.timerId }.goto a (.find request) := by
    have hfirst : p.go a = p.goto a (.store request (Timer.getValidId p.timerId)) := by
      rw [Process.go, hpc]
    show (p.go a).go a = _
    rw [hfirst]
    simp [Process.go, Process.goto]
  obtain ⟨k, hk⟩ := run_search request
    (p := { p with timerId := Timer.getValidId p.timerId }.goto a (.find request))
    (Function.update_self _ _ _) hsearch
  refine ⟨2 + (k + 2), ?_⟩
  rw [run_goes, hload, run_goes, hk]
  show ((Process.goto _ a (.take request)).go a).go a = _
  simp [Process.go, Process.goto, Process.setTimer]

theorem Timer.register_eq (t : Timer) (interval : BitVec 32) (once : Bool) (create : Option Nat) :
    t.register interval once create = match t.place interval once create with
      | none => (some dealFailed, t)
      | some (timerFd, q) => match q.nextId with
          | none => (none, q)
          | some i => (some i, q.addEntry ⟨i, interval, once, timerFd⟩) := rfl

theorem Timer.place_timerId {t q : Timer} {interval : BitVec 32} {once : Bool} {create : Option Nat}
    {timerFd : Nat} (h : t.place interval once create = some (timerFd, q)) :
    q.timerId = t.timerId := by
  unfold Timer.place at h
  split at h
  · cases h
    rfl
  · cases create with
    | none => cases h
    | some fd =>
        cases h
        rfl

/-- **A call that is not interrupted** is `Timer.register`, with the static in place of the field. -/
theorem register_uninterrupted (p : Process τ) (a : τ) (hpc : p.pcs a = .idle)
    (hcounter : (p.timers a).timerId = p.timerId) (interval : BitVec 32) (once : Bool)
    (create : Option Nat) {i : Id} {t : Timer}
    (hregister : (p.timers a).register interval once create = (some i, t)) :
    ∃ k, p.run ((a, .register interval once create) :: List.replicate k (a, .go)) =
      { p.setTimer a t with timerId := t.timerId } := by
  have hpcs : Function.update p.pcs a .idle = p.pcs := by rw [← hpc, Function.update_eq_self]
  have hbegin : p.step (a, .register interval once create) = p.register a interval once create :=
    if_pos hpc
  rw [Timer.register_eq] at hregister
  cases hplace : (p.timers a).place interval once create with
  | none =>
      rw [hplace] at hregister
      obtain rfl : p.timers a = t := congrArg Prod.snd hregister
      refine ⟨0, ?_⟩
      show p.step (a, .register interval once create) = _
      rw [hbegin, Process.register, hplace, hcounter, Process.setTimer, Function.update_eq_self]
  | some placed =>
      obtain ⟨timerFd, q⟩ := placed
      rw [hplace] at hregister
      dsimp only at hregister
      split at hregister
      · cases hregister
      · rename_i j hnext
        obtain rfl : q.addEntry ⟨j, interval, once, timerFd⟩ = t := congrArg Prod.snd hregister
        rw [Timer.nextId, Timer.place_timerId hplace, hcounter] at hnext
        have hself : (p.setTimer a q).timers a = q := Function.update_self _ _ _
        obtain ⟨k, hk⟩ := run_load ⟨interval, once, timerFd⟩ (a := a)
          (p := (p.setTimer a q).goto a (.load ⟨interval, once, timerFd⟩))
          (Function.update_self _ _ _) (i := j) (by
            show ((p.setTimer a q).timers a).searchId _ _ = _
            rw [hself]
            exact hnext)
        refine ⟨k, ?_⟩
        show (p.step (a, .register interval once create)).run _ = _
        rw [hbegin, Process.register, hplace]
        refine hk.trans ?_
        simp [Process.goto, Process.setTimer, hpcs, Timer.addEntry]

/-! ## Every run -/

/-- An id that is going to be entered and returned is valid, and its timer has no entry of that
id. -/
def FreshIds (p : Process τ) : Prop := ∀ a request i, p.pcs a = .insert request i →
  i ≠ 0 ∧ i ≠ uint32Max ∧ i ≠ dealFailed ∧ (p.timers a).timerToEntries i = none

/-- **Ids are unique for any number of timers**, as long as the static is left alone while a call
relies on it. -/
theorem ids_fresh (as : List (τ × Act)) (has : Along Undisturbing Process.step Process.new as) :
    FreshIds (Process.new.run as) := by
  have hinv : SharedInv (Process.new.run as) :=
    has.invariant (I := SharedInv) (fun p act hquiet h => h.step act hquiet) SharedInv.new
  intro a request i hpc
  have hok := hinv.ok a
  rw [hpc] at hok
  exact ⟨hok.1.pos, hok.1.max, hok.1.failed, hok.2⟩

/-- The steps of the call on a timer, `n` in a row. -/
def goes {κ : Type} (a : κ) (n : Nat) : List (κ × Act) := List.replicate n (a, .go)

/-- Two timers take turns, the second while the first has only loaded the static. -/
def takingTurns : List (Bool × Act) :=
  (true, .register 100 false (some 3)) :: goes true 5 ++ (false, .register 100 false (some 4)) ::
    goes false 1 ++ (true, .register 50 true (some 5)) :: goes true 1 ++ goes false 3

instance {κ : Type} [DecidableEq κ] [Fintype κ] (p : Process κ) : DecidablePred (Undisturbing p)
  | (a, .go) => inferInstanceAs
      (Decidable (p.writes a ≠ p.timerId → ∀ b, b ≠ a → (p.pcs b).exposed = false))
  | (_, .register _ _ _) => inferInstanceAs (Decidable True)
  | (_, .unregister _) => inferInstanceAs (Decidable True)
  | (_, .onTimer _) => inferInstanceAs (Decidable True)
  | (_, .onTimerNext) => inferInstanceAs (Decidable True)
  | (_, .onTimerEnd) => inferInstanceAs (Decidable True)

theorem ids_fresh_takingTurns :
    (Process.new.run takingTurns).pcs false = .insert ⟨100, false, 4⟩ 2 ∧
      FreshIds (Process.new.run takingTurns) :=
  ⟨by decide, ids_fresh takingTurns (by decide)⟩

/-- The first timer loads the static; the second registers a timer, and finds an id for another; then
the first stores what it has loaded. -/
def storedBack : List (Bool × Act) :=
  (true, .register 100 false (some 3)) :: goes true 1 ++ (false, .register 100 false (some 4)) ::
    goes false 5 ++ (false, .register 50 false (some 5)) :: goes false 3 ++ goes true 1 ++
    goes false 1

theorem live_id_taken : ¬ ∀ as : List (Bool × Act), FreshIds (Process.new.run as) := by
  intro h
  obtain ⟨-, -, -, hfree⟩ := h storedBack false ⟨50, false, 5⟩ 1 (by decide)
  exact absurd hfree (by decide)

end CUtils.Timers
