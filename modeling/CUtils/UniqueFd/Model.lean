import CUtils.Lib.Resource
import Mathlib.Logic.Function.Basic
import Mathlib.Order.Basic

/-!
# `UniqueFd`

A `UniqueFd` closes its descriptor when it is destroyed or takes over another one. The kernel hands
out a number again once it has been closed, so closing a descriptor twice may close a file of
somebody else.

**The state** (`Process`). The objects with their `fd_`, the log of `open` and `close`, and the
descriptors that are in no object: what `open` or `Release` returned and no object has taken over.

**The program** (`Proper`). It makes an object from a descriptor that it holds itself or from a
negative number, and it closes only what it holds itself. It may move an object to itself.
-/

namespace CUtils.UniqueFds

open Resource

variable {ι : Type} [DecidableEq ι]

structure Process (ι : Type) where
  /-- `fd_` of the objects that exist. -/
  objects : ι → Option Int
  /-- The calls of `open` and `close`, the last one first. -/
  log : List (Deal Int)
  /-- What the program has to close, or to hand to an object. -/
  loose : List Int

namespace Process

/-- At the beginning there are no objects and no descriptors. -/
def start : Process ι := ⟨fun _ => none, [], []⟩

def close (s : Process ι) (fd : Int) : Process ι := { s with log := .give fd :: s.log }

/-- `DefaultDeleter::Close`. -/
def deleterClose (s : Process ι) (fd : Int) : Process ι := if 0 ≤ fd then s.close fd else s

/-- `fd_`. -/
def get (s : Process ι) (i : ι) : Int := (s.objects i).getD (-1)

/-- `fd_ = value`. The object is now the one to close it. -/
def setFd (s : Process ι) (i : ι) (value : Int) : Process ι :=
  { s with
    objects := Function.update s.objects i (some value)
    loose := s.loose.filter (· ≠ value) }

def reset (s : Process ι) (i : ι) (newValue : Int) : Process ι :=
  (if 0 ≤ s.get i then s.deleterClose (s.get i) else s).setFd i newValue

/-- The caller gets `tmp` and has to see to it. -/
def release (s : Process ι) (i : ι) : Int × Process ι :=
  let tmp := s.get i
  (tmp, { s with
    objects := Function.update s.objects i (some (-1))
    loose := if 0 ≤ tmp then tmp :: s.loose else s.loose })

def moveConstruct (s : Process ι) (i rhs : ι) : Process ι :=
  let (rhsfd, s) := s.release rhs
  s.setFd i rhsfd

/-- The release comes first, so `i` and `rhs` may be the same object. -/
def moveAssign (s : Process ι) (i rhs : ι) : Process ι :=
  let (rhsfd, s) := s.release rhs
  s.reset i rhsfd

def destroy (s : Process ι) (i : ι) : Process ι :=
  let s := s.reset i (-1)
  { s with objects := Function.update s.objects i none }

end Process

/-- What the program does. -/
inductive Op (ι : Type)
  /-- `open` returns `fd`. -/
  | opens (fd : Int)
  | closes (fd : Int)
  | construct (i : ι) (value : Int)
  | constructDefault (i : ι)
  | destroy (i : ι)
  | release (i : ι)
  | moveConstruct (i rhs : ι)
  | moveAssign (i rhs : ι)

/-- The objects that a step is about. -/
def Op.objects : Op ι → List ι
  | .opens _ | .closes _ => []
  | .construct i _ | .constructDefault i | .destroy i | .release i => [i]
  | .moveConstruct i rhs | .moveAssign i rhs => [i, rhs]

namespace Process

def step (s : Process ι) : Op ι → Process ι
  | .opens fd => { s with log := .take fd :: s.log, loose := fd :: s.loose }
  | .closes fd => { s.close fd with loose := s.loose.filter (· ≠ fd) }
  | .construct i value => s.setFd i value
  | .constructDefault i => s.setFd i (-1)
  | .destroy i => s.destroy i
  | .release i => (s.release i).2
  | .moveConstruct i rhs => s.moveConstruct i rhs
  | .moveAssign i rhs => s.moveAssign i rhs

def run (s : Process ι) : List (Op ι) → Process ι
  | [] => s
  | op :: ops => (s.step op).run ops

/-- What the kernel and the program keep to: `open` returns a number that is not in use, an object
is used while it exists, and only what the program holds is closed or handed to an object. -/
def Proper (s : Process ι) : Op ι → Prop
  | .opens fd => 0 ≤ fd ∧ fd ∉ (held s.log).getD []
  | .closes fd => fd ∈ s.loose
  | .construct i value => s.objects i = none ∧ (value < 0 ∨ value ∈ s.loose)
  | .constructDefault i => s.objects i = none
  | .destroy i => s.objects i ≠ none
  | .release i => s.objects i ≠ none
  | .moveConstruct i rhs => s.objects i = none ∧ s.objects rhs ≠ none
  | .moveAssign i rhs => s.objects i ≠ none ∧ s.objects rhs ≠ none

instance (s : Process ι) : (op : Op ι) → Decidable (s.Proper op)
  | .opens _ | .construct _ _ | .moveConstruct _ _ | .moveAssign _ _ =>
      inferInstanceAs (Decidable (_ ∧ _))
  | .closes fd => inferInstanceAs (Decidable (fd ∈ s.loose))
  | .constructDefault i => inferInstanceAs (Decidable (s.objects i = none))
  | .destroy i | .release i => inferInstanceAs (Decidable (s.objects i ≠ none))

/-- Every step of the run is proper. -/
def Keeps (s : Process ι) : List (Op ι) → Prop
  | [] => True
  | op :: ops => s.Proper op ∧ (s.step op).Keeps ops

instance decidableKeeps (s : Process ι) : (ops : List (Op ι)) → Decidable (s.Keeps ops)
  | [] => inferInstanceAs (Decidable True)
  | op :: ops =>
      have := decidableKeeps (s.step op) ops
      inferInstanceAs (Decidable (_ ∧ _))

end Process

end CUtils.UniqueFds
