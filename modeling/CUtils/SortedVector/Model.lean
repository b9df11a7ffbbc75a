import CUtils.Lib.BinarySearch
import Mathlib.Data.List.Destutter

/-!
# Sorted vectors

`SortedVector<TYPE, AllowDuplicate>` keeps a `std::vector` in ascending order, with or without
duplicates. The element type brings an `operator<` and an `operator==`; nothing is assumed of them
here. The algorithms of the standard library are the ones it describes: the searches are binary,
`merge` prefers the first range, `unique_copy` compares with the last element copied. `std::sort`
is any function that returns a sorted permutation (`Sorting`), since the order of equivalent
elements is not specified.

A run works on any number of vectors of both kinds, each with a name (`Vectors`).
-/

namespace CUtils.SortedVectors

open BinarySearch

/-- A `std::sort`. -/
structure Sorting (α : Type) [LT α] where
  sort : List α → List α
  perm : ∀ l, (sort l).Perm l
  sorted : ∀ l, (sort l).Pairwise fun a b => ¬ b < a

structure SortedVector (α : Type) (allowDuplicate : Bool) where
  vec : List α

def notFound : Int := -1
def addFail : Int := -1

variable {α : Type} [LT α] [DecidableLT α] [BEq α]

def lowerBound (vec : List α) (item : α) : Nat := partitionPoint (fun x => x < item) vec

def upperBound (vec : List α) (item : α) : Nat := partitionPoint (fun x => !(item < x)) vec

def stdMerge (xs ys : List α) : List α := xs.merge ys fun x y => !(y < x)

def uniqueCopy (l : List α) : List α := l.destutter fun a b => ¬ (a == b) = true

namespace SortedVector

variable {b b' : Bool}

def empty : SortedVector α b := ⟨[]⟩

/-- The constructor from a vector without duplicates. -/
def ofUnique (rhs : SortedVector α false) : SortedVector α b := ⟨[] ++ rhs.vec⟩

/-- The constructor from a vector that may have duplicates. -/
def ofDuplicate (rhs : SortedVector α true) : SortedVector α b :=
  if b then ⟨[] ++ rhs.vec⟩
  -- AllowDuplicate to Not AllowDuplicate
  else ⟨[] ++ uniqueCopy rhs.vec⟩

/-- Whichever of the two constructors the argument selects; the assignments clear the vector first
and then do the same. -/
def copyOf (rhs : SortedVector α b') : SortedVector α b :=
  match b' with
  | false => ofUnique rhs
  | true => ofDuplicate rhs

/-- The constructor from a `std::vector`. -/
def ofVector (std : Sorting α) (invec : List α) : SortedVector α b :=
  if invec.isEmpty then empty
  else
    let newvector := std.sort invec
    if b then ⟨newvector⟩ else ⟨[] ++ uniqueCopy newvector⟩

def size (v : SortedVector α b) : Nat := v.vec.length

def indexOf (v : SortedVector α b) (item : α) : Int :=
  if v.vec.isEmpty then notFound
  else
    let it := lowerBound v.vec item
    match v.vec[it]? with
    -- it == vec_.end()
    | none => notFound
    | some x => if x == item then it else notFound

def orderOf (v : SortedVector α b) (item : α) : Nat := upperBound v.vec item

def add (v : SortedVector α b) (item : α) : Int × SortedVector α b :=
  let index := v.indexOf item
  if index ≠ notFound ∧ !b then (addFail, v)
  else
    let it := upperBound v.vec item
    (it, ⟨v.vec.insertIdx it item⟩)

def merge (v sortedVector : SortedVector α b) : Nat × SortedVector α b :=
  let newVec := stdMerge v.vec sortedVector.vec
  let v : SortedVector α b := if !b then ⟨[] ++ uniqueCopy newVec⟩ else ⟨newVec⟩
  (v.size, v)

def mergeVector (std : Sorting α) (v : SortedVector α b) (invec : List α) :
    Nat × SortedVector α b :=
  let sortedVector : SortedVector α b := ofVector std invec
  let v := (v.merge sortedVector).2
  (v.size, v)

/-- The iterator returned is a position. -/
def erase (v : SortedVector α b) (index : Nat) : Nat × SortedVector α b :=
  if index ≥ v.size then (v.size, v) else (index, ⟨v.vec.eraseIdx index⟩)

/-- Undefined on an empty vector; here it stays empty. -/
def popBack (v : SortedVector α b) : SortedVector α b := ⟨v.vec.dropLast⟩

def clear (_ : SortedVector α b) : SortedVector α b := ⟨[]⟩

end SortedVector

/-! ## Runs -/

/-- The name of a vector: its kind, and which of that kind. -/
abbrev Name := Bool × Nat

abbrev Vectors (α : Type) := (x : Name) → SortedVector α x.1

inductive Op (α : Type)
  | construct (x : Name) (invec : List α)
  | copy (x rhs : Name)
  | assign (x rhs : Name)
  | add (x : Name) (item : α)
  | mergeVector (x : Name) (invec : List α)
  /-- Both vectors have the same kind; they may be the same vector. -/
  | merge (b : Bool) (i j : Nat)
  | erase (x : Name) (index : Nat)
  | popBack (x : Name)
  | clear (x : Name)

def step (std : Sorting α) (s : Vectors α) : Op α → Vectors α
  | .construct x invec => Function.update s x (.ofVector std invec)
  | .copy x rhs => Function.update s x (.copyOf (s rhs))
  | .assign x rhs => if x = rhs then s else Function.update s x (.copyOf (s rhs))
  | .add x item => Function.update s x ((s x).add item).2
  | .mergeVector x invec => Function.update s x ((s x).mergeVector std invec).2
  | .merge b i j => Function.update s (b, i) ((s (b, i)).merge (s (b, j))).2
  | .erase x index => Function.update s x ((s x).erase index).2
  | .popBack x => Function.update s x (s x).popBack
  | .clear x => Function.update s x (s x).clear

/-- The vectors after their default constructors. -/
def start : Vectors α := fun _ => .empty

def run (std : Sorting α) (s : Vectors α) (ops : List (Op α)) : Vectors α := ops.foldl (step std) s

end CUtils.SortedVectors
