import CUtils.Lib.Monitor

/-!
# Maps that threads share

`SafeMap`: a `std::map` and a mutex. Every method is one critical section, apart from the assignment,
which copies the other map in a section of that one and stores the copy in a section of its own. What
a section does to the map it does step by step (`EnsureInsert` erases and inserts, `Iterate` goes from
key to key).

`Contents` is what a map is for: which value each key has, and how many keys there are. Whatever the
threads do, they cannot tell the maps from such contents on which each method acts at once, and the
assignment in two steps (`linearizable`).
-/

namespace CUtils.SafeMaps

open Std Monitor Threads

variable {ω K V : Type}

/-- The methods, of the map `o`. -/
inductive Op (ω K V : Type)
  | insert (o : ω) (key : K) (value : V)
  | ensureInsert (o : ω) (key : K) (value : V)
  | find (o : ω) (key : K)
  | findOldAndSetNew (o : ω) (key : K) (newValue : V)
  | erase (o : ω) (key : K)
  | clear (o : ω)
  | size (o : ω)
  | isEmpty (o : ω)
  | readVal (o : ω) (key : K)
  | changeValueByLambda (o : ω) (key : K) (callback : V → V)
  | iterate (o : ω) (callback : K → V → V)
  /-- `operator=`, and the copy constructor. -/
  | assign (o rhs : ω)

/-- The map a method is called on. -/
def Op.target : Op ω K V → ω
  | .insert o _ _ | .ensureInsert o _ _ | .find o _ | .findOldAndSetNew o _ _ | .erase o _ | .clear o
  | .size o | .isEmpty o | .readVal o _ | .changeValueByLambda o _ _ | .iterate o _ | .assign o _ => o

/-- What a method returns; `found` is what it writes to the reference it is given. -/
inductive Value (V : Type)
  | unit
  | flag (b : Bool)
  | found (value : Option V)
  | value (value : V)
  | size (n : Int)

/-! ## The code -/

section Code

variable (cmp : K → K → Ordering)

/-- `map_.insert`, which leaves a value that is there. -/
def mapInsert (key : K) (value : V) : Section (TreeMap K V cmp) Bool :=
  .call fun m => (!m.contains key, m.insertIfNew key value)

def mapErase (key : K) : Section (TreeMap K V cmp) Unit := .call fun m => ((), m.erase key)

def mapFind (key : K) : Section (TreeMap K V cmp) (Option V) := .call fun m => (m[key]?, m)

def insert (key : K) (value : V) : Section (TreeMap K V cmp) (Value V) := do
  let second ← mapInsert cmp key value
  return .flag second

def ensureInsert (key : K) (value : V) : Section (TreeMap K V cmp) (Value V) := do
  let second ← mapInsert cmp key value
  if !second then
    mapErase cmp key
    let _ ← mapInsert cmp key value
    return .unit
  else return .unit

def find (key : K) : Section (TreeMap K V cmp) (Value V) := do
  let iter ← mapFind cmp key
  return .found iter

/-- What `FindOldAndSetNew` does with what it has found. -/
def setNew (key : K) (newValue : V) : Option V → Section (TreeMap K V cmp) (Value V)
  | some oldValue => do
      mapErase cmp key
      let _ ← mapInsert cmp key newValue
      return .found (some oldValue)
  | none => return .found none

def findOldAndSetNew (key : K) (newValue : V) : Section (TreeMap K V cmp) (Value V) := do
  let size ← Section.call fun m => (m.size, m)
  if size > 0 then
    let iter ← mapFind cmp key
    setNew cmp key newValue iter
  else return .found none

def erase (key : K) : Section (TreeMap K V cmp) (Value V) := do
  mapErase cmp key
  return .unit

def clear : Section (TreeMap K V cmp) (Value V) := .call fun _ => (.unit, ∅)

def size : Section (TreeMap K V cmp) (Value V) := .call fun m => (.size (int m.size), m)

def isEmpty : Section (TreeMap K V cmp) (Value V) := .call fun m => (.flag m.isEmpty, m)

/-- The loop of `Iterate`, from key to key. -/
def iterateLoop (callback : K → V → V) : List K → Section (TreeMap K V cmp) (Value V)
  | [] => .leave .unit
  | key :: keys => .access (fun m => m.modify key (callback key)) fun _ => iterateLoop callback keys

def iterate (callback : K → V → V) : Section (TreeMap K V cmp) (Value V) := do
  let empty ← Section.call fun m => (m.isEmpty, m)
  if !empty then
    let keys ← Section.call fun m => (m.keys, m)
    iterateLoop cmp callback keys
  else return .unit

variable [Inhabited V]

/-- `map_[key]`, which inserts `V()` if the key is not there. -/
def mapSubscript (key : K) : Section (TreeMap K V cmp) Unit :=
  .call fun m => ((), m.insertIfNew key default)

def readVal (key : K) : Section (TreeMap K V cmp) (Value V) := do
  mapSubscript cmp key
  .call fun m => (.value (m.getD key default), m)

def changeValueByLambda (key : K) (callback : V → V) : Section (TreeMap K V cmp) (Value V) := do
  mapSubscript cmp key
  .call fun m => (.unit, m.modify key callback)

/-- A method of one section; the result is kept together with the call. -/
def single (op : Op ω K V) (o : ω) (body : Section (TreeMap K V cmp) (Value V)) :
    Code ω (TreeMap K V cmp) (Op ω K V × Value V) :=
  Code.single o (body >>= fun v => pure (op, v))

variable [DecidableEq ω]

def assign (o rhs : ω) : Code ω (TreeMap K V cmp) (Op ω K V × Value V) :=
  if o = rhs then .ret (.assign o rhs, .unit)
  else
    -- `Clone`
    .lock rhs (.access id fun tmp => .leave
      (.lock o (.access (fun _ => tmp) fun _ => .leave (.ret (.assign o rhs, .unit)))))

def code (op : Op ω K V) : Code ω (TreeMap K V cmp) (Op ω K V × Value V) :=
  match op with
  | .insert o key value => single cmp op o (insert cmp key value)
  | .ensureInsert o key value => single cmp op o (ensureInsert cmp key value)
  | .find o key => single cmp op o (find cmp key)
  | .findOldAndSetNew o key newValue => single cmp op o (findOldAndSetNew cmp key newValue)
  | .erase o key => single cmp op o (erase cmp key)
  | .clear o => single cmp op o (clear cmp)
  | .size o => single cmp op o (size cmp)
  | .isEmpty o => single cmp op o (isEmpty cmp)
  | .readVal o key => single cmp op o (readVal cmp key)
  | .changeValueByLambda o key callback => single cmp op o (changeValueByLambda cmp key callback)
  | .iterate o callback => single cmp op o (iterate cmp callback)
  | .assign o rhs => assign cmp o rhs

end Code

/-! ## What a map is for -/

@[ext]
structure Contents (K V : Type) where
  get : K → Option V
  size : Nat

namespace Contents

variable [DecidableEq K]

/-- The key has the value from then on. -/
def put (key : K) (value : V) (c : Contents K V) : Contents K V where
  get := Function.update c.get key (some value)
  size := if (c.get key).isSome then c.size else c.size + 1

def erase (key : K) (c : Contents K V) : Contents K V where
  get := Function.update c.get key none
  size := if (c.get key).isSome then c.size - 1 else c.size

/-- The value of a key, which is the default one from then on if there is none. -/
def force (init : V) (key : K) (c : Contents K V) : V × Contents K V :=
  match c.get key with
  | some value => (value, c)
  | none => (init, c.put key init)

end Contents

section Spec

variable [DecidableEq K] [Inhabited V]

/-- What the methods do, all at once. -/
def spec (op : Op ω K V) (c : Contents K V) : Value V × Contents K V :=
  match op with
  | .insert _ key value =>
      match c.get key with
      | some _ => (.flag false, c)
      | none => (.flag true, c.put key value)
  | .ensureInsert _ key value => (.unit, c.put key value)
  | .find _ key => (.found (c.get key), c)
  | .findOldAndSetNew _ key newValue =>
      match c.get key with
      | some oldValue => (.found (some oldValue), c.put key newValue)
      | none => (.found none, c)
  | .erase _ key => (.unit, c.erase key)
  | .clear _ => (.unit, ⟨fun _ => none, 0⟩)
  | .size _ => (.size (int c.size), c)
  | .isEmpty _ => (.flag (c.size = 0), c)
  | .readVal _ key => (.value (c.force default key).1, (c.force default key).2)
  | .changeValueByLambda _ key callback =>
      (.unit, (c.force default key).2.put key (callback (c.force default key).1))
  | .iterate _ callback => (.unit, ⟨fun key => (c.get key).map (callback key), c.size⟩)
  | .assign _ _ => (.unit, c)

variable [DecidableEq ω]

def plan (op : Op ω K V) : Plan ω (Contents K V) (Op ω K V × Value V) :=
  match op with
  | .assign o rhs =>
      if o = rhs then .ret (.assign o rhs, .unit)
      else .perform rhs id fun tmp => .perform o (fun _ => tmp) fun _ => .ret (.assign o rhs, .unit)
  | op => Plan.single op.target fun c => ((op, (spec op c).1), (spec op c).2)

end Spec

end CUtils.SafeMaps
