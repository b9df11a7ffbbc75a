import CUtils.Lib.Monitor

/-!
# Queues and stacks that threads share

`SafeQueueInner`: a `std::deque` and a mutex; `SafeQueue` pops at the front, `SafeStack` at the back.
Every method is one critical section. Whatever the threads do, they cannot tell a `SafeQueue` from a
list that is used first in, first out, nor a `SafeStack` from one that is used last in, first out
(`history_of_lists`), and no element comes out more often than it has been put in (`popped_le_pushed`).
-/

namespace CUtils.SafeQueues

open Monitor Threads

variable {ι ω T : Type}

/-- The class of an object: what `DoPop` is. -/
inductive Kind
  | queue
  | stack

/-- The methods, of the object `o`. -/
inductive Op (ω T : Type)
  | erase (o : ω) (object : T)
  | empty (o : ω)
  | push (o : ω) (pt : T)
  | clear (o : ω)
  | size (o : ω)
  | pop (o : ω)

def Op.target : Op ω T → ω
  | .erase o _ | .empty o | .push o _ | .clear o | .size o | .pop o => o

/-- What a method returns; `popped` is what `Pop` writes to the reference it is given, with `true`. -/
inductive Value (T : Type)
  | unit
  | flag (b : Bool)
  | size (n : Int)
  | popped (pt : Option T)

/-! ## The code -/

/-- The loop of `Erase`: `iter` is at the position `i`, and there are `n` to the end. -/
def eraseLoop [DecidableEq T] (object : T) : Nat → Nat → Section (List T) (Value T)
  | 0, _ => .leave .unit
  | n + 1, i => .access id fun deque =>
      if deque[i]? = some object then .access (fun deque => deque.eraseIdx i) fun _ => .leave .unit
      else eraseLoop object n (i + 1)

def erase [DecidableEq T] (object : T) : Section (List T) (Value T) := do
  let size ← Section.call fun deque => (deque.length, deque)
  eraseLoop object size 0

def empty : Section (List T) (Value T) := .call fun deque => (.flag deque.isEmpty, deque)

def push (pt : T) : Section (List T) (Value T) := .call fun deque => (.unit, deque ++ [pt])

def clear : Section (List T) (Value T) := do
  let isEmpty ← Section.call fun deque => (deque.isEmpty, deque)
  if !isEmpty then .call fun _ => (.unit, []) else return .unit

def size : Section (List T) (Value T) := .call fun deque => (.size (int deque.length), deque)

/-- `SafeQueue::DoPop`. -/
def popFront : Section (List T) (Value T) := do
  let size ← Section.call fun deque => (deque.length, deque)
  if size > 0 then
    let front ← Section.call fun deque => (deque.head?, deque)
    Section.call fun deque => ((), deque.tail)
    return .popped front
  else return .popped none

/-- `SafeStack::DoPop`. -/
def popBack : Section (List T) (Value T) := do
  let size ← Section.call fun deque => (deque.length, deque)
  if size > 0 then
    let back ← Section.call fun deque => (deque.getLast?, deque)
    Section.call fun deque => ((), deque.dropLast)
    return .popped back
  else return .popped none

def pop : Kind → Section (List T) (Value T)
  | .queue => popFront
  | .stack => popBack

def body [DecidableEq T] (kind : ω → Kind) : Op ω T → Section (List T) (Value T)
  | .erase _ object => erase object
  | .empty _ => empty
  | .push _ pt => push pt
  | .clear _ => clear
  | .size _ => size
  | .pop o => pop (kind o)

/-- The result is kept together with the call. -/
def code [DecidableEq T] (kind : ω → Kind) (op : Op ω T) : Code ω (List T) (Op ω T × Value T) :=
  Code.single op.target (body kind op >>= fun v => pure (op, v))

/-! ## What they are for -/

/-- The list is from front to back. -/
def spec [DecidableEq T] (kind : ω → Kind) (op : Op ω T) (list : List T) : Value T × List T :=
  match op with
  | .erase _ object => (.unit, list.erase object)
  | .empty _ => (.flag (list = []), list)
  | .push _ pt => (.unit, list ++ [pt])
  | .clear _ => (.unit, [])
  | .size _ => (.size (int list.length), list)
  | .pop o =>
      match kind o with
      | .queue => (.popped list.head?, list.tail)
      | .stack => (.popped list.getLast?, list.dropLast)

def plan [DecidableEq T] (kind : ω → Kind) (op : Op ω T) : Plan ω (List T) (Op ω T × Value T) :=
  Plan.single op.target fun list => ((op, (spec kind op list).1), (spec kind op list).2)

section

variable [DecidableEq T] {kind : ω → Kind}

/-- From the position `i` on. -/
theorem run_eraseLoop (object : T) (front back : List T) (hfront : object ∉ front) :
    (eraseLoop object back.length front.length).run (front ++ back) =
      (.unit, front ++ back.erase object) := by
  induction back generalizing front with
  | nil => rfl
  | cons x back ih =>
      have hread : (front ++ x :: back)[front.length]? = some x := by
        rw [List.getElem?_append_right le_rfl, Nat.sub_self]
        rfl
      show (if (front ++ x :: back)[front.length]? = some object then _ else _ : Section _ _).run _ = _
      rw [hread]
      by_cases hx : x = object
      · rw [if_pos (congrArg some hx), hx, List.erase_cons_head]
        refine congrArg (Prod.mk _) ?_
        show (front ++ object :: back).eraseIdx front.length = front ++ back
        rw [List.eraseIdx_append_of_length_le le_rfl, Nat.sub_self]
        rfl
      · rw [if_neg fun heq => hx (Option.some.inj heq)]
        have hnext : object ∉ front ++ [x] := by
          rw [List.mem_append, not_or]
          exact ⟨hfront, fun hmem => hx (List.mem_singleton.1 hmem).symm⟩
        have hrest := ih (front ++ [x]) hnext
        rw [List.length_append, List.append_assoc, List.append_assoc] at hrest
        refine Eq.trans hrest ?_
        rw [List.erase_cons_tail (by simpa using hx)]
        rfl

theorem run_body (op : Op ω T) (list : List T) : (body kind op).run list = spec kind op list := by
  cases op with
  | erase o object => exact run_eraseLoop object [] list List.not_mem_nil
  | empty o =>
      refine congrArg (fun b => (Value.flag b, list)) ?_
      cases list <;> rfl
  | push o pt => rfl
  | clear o => cases list <;> rfl
  | size o => rfl
  | pop o =>
      show (pop (kind o)).run list = spec kind (.pop o) list
      simp only [spec]
      cases kind o with
      | queue => cases list <;> rfl
      | stack => cases list <;> rfl

theorem implements (op : Op ω T) : Implements id (code kind op) (plan kind op) := by
  refine Implements.single fun list => ?_
  rw [Section.run_bind, run_body]
  rfl

variable [DecidableEq ι] [DecidableEq ω]

/-- What the threads get back could as well have come from lists on which each call acts at once. -/
theorem history_of_lists (kind : ω → Kind) (object : ω → List T) (as : List (ι × Act (Op ω T))) :
    ∃ bs : List (ι × Act (Op ω T)),
      ((Planned.new object).run (plan kind) bs).history =
        ((State.new object).run (code kind) as).history ∧
      ∀ o, ((State.new object).run (code kind) as).owner o = none →
        ((Planned.new object).run (plan kind) bs).object o =
          ((State.new object).run (code kind) as).object o :=
  history_of_plans implements object as

/-! ## What comes out -/

/-- A call of `Pop` has returned `object`. -/
def popped (o : ω) (object : T) : Op ω T × Value T → Nat
  | (.pop o', .popped (some pt)) => if o' = o ∧ pt = object then 1 else 0
  | _ => 0

def pushes (o : ω) (object : T) : Op ω T → Nat
  | .push o' pt => if o' = o ∧ pt = object then 1 else 0
  | _ => 0

theorem head_add_tail (object : T) (list : List T) :
    (if list.head? = some object then 1 else 0) + list.tail.count object = list.count object := by
  cases list with
  | nil => rfl
  | cons x list =>
      rw [List.count_cons, List.head?_cons, List.tail_cons, Nat.add_comm]
      simp only [Option.some.injEq, beq_iff_eq]

theorem last_add_init (object : T) (list : List T) :
    (if list.getLast? = some object then 1 else 0) + list.dropLast.count object = list.count object := by
  rcases List.eq_nil_or_concat list with rfl | ⟨init, x, rfl⟩
  · rfl
  · rw [List.concat_eq_append, List.count_append, List.getLast?_concat, List.dropLast_concat,
      Nat.add_comm, List.count_singleton]
    simp only [Option.some.injEq, beq_iff_eq]

theorem plan_pays (o : ω) (object : T) (op : Op ω T) : (plan kind op).Pays o
    (fun list => -(list.count object : Int)) (popped o object) (pushes o object op) := by
  by_cases htarget : op.target = o
  · have hown : ∀ list, popped o object (op, (spec kind op list).1) + (spec kind op list).2.count object ≤
        pushes o object op + list.count object := by
      intro list
      cases op with
      | erase o' pt =>
          have hle := (List.erase_sublist (a := pt) (l := list)).count_le object
          simp only [popped, pushes, spec]
          omega
      | empty o' => exact le_rfl
      | size o' => exact le_rfl
      | clear o' => exact Nat.zero_le _
      | push o' pt =>
          have hto : o' = o := htarget
          simp only [popped, pushes, spec, hto, true_and, List.count_append, List.count_singleton,
            beq_iff_eq]
          omega
      | pop o' =>
          have hto : o' = o := htarget
          have hgain : ∀ pt : Option T, popped o object ((.pop o', .popped pt) : Op ω T × Value T) =
              if pt = some object then 1 else 0 := by
            intro pt
            cases pt with
            | none => rfl
            | some pt => simp only [popped, hto, true_and, Option.some.injEq]
          simp only [spec]
          cases kind o' with
          | queue =>
              simp only [hgain, pushes, head_add_tail]
              omega
          | stack =>
              simp only [hgain, pushes, last_add_init]
              omega
    rw [plan, htarget]
    refine .own _ _ _ (fun list => popped o object (op, (spec kind op list).1)) (fun _ => .ret _ _ le_rfl)
      fun list => ?_
    have hle := hown list
    simp only
    omega
  · refine .other _ _ _ _ htarget fun list => .ret _ _ ?_
    have hzero : ∀ v, popped o object (op, v) = 0 := by
      intro v
      cases op with
      | pop o' =>
          cases v with
          | popped pt =>
              cases pt with
              | none => rfl
              | some pt => exact if_neg fun hand => htarget hand.1
          | _ => rfl
      | _ => rfl
    rw [hzero]
    exact Nat.zero_le _

/-- **No element comes out twice.** However many threads push, pop and erase, not more calls of `Pop`
return a value than there were of it at first and have been pushed; and what is still there, when
nobody is in a method, is not counted twice either. -/
theorem popped_le_pushed [Fintype ι] (kind : ω → Kind) (o : ω) (object : T) (objects : ω → List T)
    (as : List (ι × Act (Op ω T))) :
    total (Event.gain (popped o object)) ((State.new objects).run (code kind) as).history ≤
        (objects o).count object +
          total (Event.cost (pushes o object)) ((State.new objects).run (code kind) as).history ∧
      (((State.new objects).run (code kind) as).owner o = none →
        total (Event.gain (popped o object)) ((State.new objects).run (code kind) as).history +
            (((State.new objects).run (code kind) as).object o).count object ≤
          (objects o).count object +
            total (Event.cost (pushes o object)) ((State.new objects).run (code kind) as).history) := by
  obtain ⟨bs, hhistory, hobject⟩ := history_of_lists (ι := ι) kind objects as
  have hpays : ∀ op, (plan kind op).Pays o (fun list => -(list.count object : Int)) (popped o object)
      (pushes o object op) := plan_pays o object
  have hle := gains_le (ι := ι) hpays objects bs
  rw [hhistory] at hle
  refine ⟨by omega, fun hfree => ?_⟩
  rw [hobject o hfree] at hle
  omega

end

end CUtils.SafeQueues
