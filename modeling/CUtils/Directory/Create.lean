import CUtils.Directory.Spelling
import Mathlib.Logic.Function.Basic

/-!
# `ForceCreateDirectory`

`ForceCreateDirectory` goes through the slashes of a path and makes the directory up to each of them
if `access` does not find it. Others may be making the same directories, so `mkdir` may find that it
comes too late (`EEXIST`), which is as good as having made it.

**Files** (`Files`). A node is the list of names that lead to it from the root, the last one first;
it is a directory, another file, or not there. There are no links.

**Names.** The kernel enters the names of a path one after the other. An empty name and `.` stay
where they are, `..` goes back, and each needs a directory to be in. `mkdir` does not count slashes
at the end, nor double ones.

**Calls** (`State`). Any number of threads, each with its path. One step of a thread is a system
call.
-/

namespace CUtils.MakeDirs

open Directory

abbrev Node := List Str

inductive Kind
  | dir
  | file
  deriving DecidableEq, Repr

abbrev Files := Node → Option Kind

structure Host where
  /-- The working directory. -/
  cwd : Node
  /-- No directory can be made here: it is not permitted, the disk is full, the name too long. -/
  denied : Node → Bool

/-- The root is a directory, and so is what a node is in. -/
structure Files.Sound (kind : Files) : Prop where
  root : kind [] = some .dir
  parent : ∀ name dir, kind (name :: dir) ≠ none → kind dir = some .dir

/-! ## The kernel -/

def names (path : Str) : List Str :=
  (if path.head? = some '/' then path.tail else path).splitOn '/'

def Host.base (h : Host) (path : Str) : Node := if path.head? = some '/' then [] else h.cwd

/-- Where a name leads, if it is there. -/
def target (cur : Node) (name : Str) : Node :=
  if name = [] ∨ name = ['.'] then cur
  else if name = ['.', '.'] then cur.tail
  else name :: cur

def enter (kind : Files) (cur : Node) (name : Str) : Option Node :=
  if kind cur ≠ some .dir then none
  else if name = [] ∨ name = ['.'] then some cur
  else if name = ['.', '.'] then some cur.tail
  else if kind (name :: cur) = none then none
  else some (name :: cur)

def walk (kind : Files) : Node → List Str → Option Node
  | cur, [] => some cur
  | cur, name :: ns => (enter kind cur name).bind fun node => walk kind node ns

/-- What `errno` is looked at for. -/
inductive Errno
  | eexist
  | other
  deriving DecidableEq, Repr

namespace Host

variable (h : Host)

/-- `access(path, F_OK) == 0`. -/
def access (kind : Files) (path : Str) : Bool :=
  path ≠ [] ∧ (walk kind (h.base path) (names path)).isSome

/-- `mkdir` in the directory that the last name is in. -/
def makeAt (kind : Files) (dir : Node) (name : Str) : Except Errno Files :=
  if kind dir ≠ some .dir then .error .other
  else if name = ['.'] ∨ name = ['.', '.'] then .error .eexist
  else if kind (name :: dir) ≠ none then .error .eexist
  else if h.denied (name :: dir) then .error .other
  else .ok (Function.update kind (name :: dir) (some .dir))

def mkdir (kind : Files) (path : Str) : Except Errno Files :=
  if path = [] then .error .other
  else
    let ns := (names path).filter (· ≠ [])
    match ns.getLast? with
    | none => .error .eexist
    | some name =>
        match walk kind (h.base path) ns.dropLast with
        | none => .error .other
        | some dir => h.makeAt kind dir name

end Host

/-! ## `ForceCreateDirectory` -/

/-- `path.find('/', pos)`; `none` is `npos`. -/
def findSlash (path : Str) (pos : Nat) : Option Nat :=
  ((path.drop pos).findIdx? (· = '/')).map (pos + ·)

def subPath (path : Str) : Option Nat → Str
  | none => path
  | some index => path.take index

inductive Pc
  /-- At `access(subPath)`, with the `index` that belongs to it. -/
  | access (index : Option Nat)
  | mkdir (index : Option Nat)
  /-- At the `access` behind the loop. -/
  | last
  | ret (b : Bool)
  deriving DecidableEq, Repr

/-- The end of the body: once more, or out of the loop. -/
def next (path : Str) : Option Nat → Pc
  | none => .last
  | some index => .access (findSlash path (index + 1))

/-- The next system call of a thread. -/
def Host.call (h : Host) (kind : Files) (path : Str) : Pc → Files × Pc
  | .access index =>
      if h.access kind (subPath path index) then (kind, next path index) else (kind, .mkdir index)
  | .mkdir index =>
      match h.mkdir kind (subPath path index) with
      | .ok kind => (kind, next path index)
      | .error .eexist => (kind, next path index)
      | .error .other => (kind, .ret false)
  | .last => (kind, .ret (h.access kind path))
  | .ret b => (kind, .ret b)

structure State (ι : Type) where
  kind : Files
  pc : ι → Pc

namespace State

variable {ι : Type} [DecidableEq ι] (h : Host) (path : ι → Str)

/-- Everybody has just called `ForceCreateDirectory`; `index` is 0. -/
def start (kind : Files) : State ι := ⟨kind, fun t => .access (findSlash (path t) 1)⟩

def step (s : State ι) (t : ι) : State ι :=
  let (kind, pc) := h.call s.kind (path t) (s.pc t)
  ⟨kind, Function.update s.pc t pc⟩

def run (s : State ι) : List ι → State ι
  | [] => s
  | t :: ts => (s.step h path t).run ts

end State

/-! ## Names and slashes -/

/-- Up to the first slash, if there is one. -/
theorem findIdx?_slash (l : Str) :
    l.findIdx? (· = '/') = none ∧ '/' ∉ l ∨
      ∃ l₁ l₂, l.findIdx? (· = '/') = some l₁.length ∧ l = l₁ ++ '/' :: l₂ ∧ '/' ∉ l₁ := by
  induction l with
  | nil => exact .inl ⟨rfl, List.not_mem_nil⟩
  | cons a l ih =>
      rw [List.findIdx?_cons]
      by_cases ha : a = '/'
      · refine .inr ⟨[], l, ?_, by rw [ha, List.nil_append], List.not_mem_nil⟩
        simp [ha]
      · rw [if_neg (by simpa using ha)]
        rcases ih with ⟨hnone, hnot⟩ | ⟨l₁, l₂, hsome, hl, hnot⟩
        · refine .inl ⟨by rw [hnone, Option.map_none], ?_⟩
          exact List.not_mem_cons_of_ne_of_not_mem (Ne.symm ha) hnot
        · refine .inr ⟨a :: l₁, l₂, ?_, by rw [hl, List.cons_append], ?_⟩
          · rw [hsome, Option.map_some, List.length_cons]
          · exact List.not_mem_cons_of_ne_of_not_mem (Ne.symm ha) hnot

theorem findSlash_append (q l : Str) :
    findSlash (q ++ l) q.length = (l.findIdx? (· = '/')).map (q.length + ·) := by
  rw [findSlash, List.drop_left]

theorem head?_append_of_ne_nil {q : Str} (hq : q ≠ []) (l : Str) : (q ++ l).head? = q.head? := by
  cases q with
  | nil => exact absurd rfl hq
  | cons a q => rfl

theorem names_append {p : Str} (hp : p ≠ []) (r : Str) :
    names (p ++ '/' :: r) = names p ++ r.splitOn '/' := by
  rw [names, names, head?_append_of_ne_nil hp]
  split
  · rw [List.tail_append_of_ne_nil hp]
    exact List.splitOn_append_cons_self _ r
  · exact List.splitOn_append_cons_self p r

/-- `subPath` has the names `ps` and `name`, and `rest` is what comes behind its slash. -/
structure Cut (path : Str) (index : Option Nat) (ps : List Str) (name : Str) (rest : List Str) :
    Prop where
  sub : names (subPath path index) = ps ++ [name]
  all : names path = ps ++ name :: rest
  head : (subPath path index).head? = path.head?
  behind : match index with
    | none => rest = []
    | some i => ∃ p r, path = p ++ '/' :: r ∧ p.length = i ∧ p ≠ [] ∧ rest = r.splitOn '/'

/-- The search that goes on behind `q`. -/
theorem Cut.search {q : Str} (hq : q ≠ []) {ps : List Str}
    (hnames : ∀ l, '/' ∉ l → ∃ name, names (q ++ l) = ps ++ [name]) (l : Str) :
    ∃ name rest, Cut (q ++ l) (findSlash (q ++ l) q.length) ps name rest := by
  rw [findSlash_append]
  rcases findIdx?_slash l with ⟨hnone, hnot⟩ | ⟨l₁, l₂, hsome, rfl, hnot⟩
  · obtain ⟨name, hname⟩ := hnames l hnot
    rw [hnone, Option.map_none]
    exact ⟨name, [], hname, hname, rfl, rfl⟩
  · obtain ⟨name, hname⟩ := hnames l₁ hnot
    have hne : q ++ l₁ ≠ [] := List.append_ne_nil_of_left_ne_nil hq l₁
    have hsub : subPath (q ++ (l₁ ++ '/' :: l₂)) (some (q.length + l₁.length)) = q ++ l₁ := by
      rw [subPath, ← List.append_assoc, ← List.length_append, List.take_left]
    rw [hsome, Option.map_some]
    refine ⟨name, l₂.splitOn '/', ?_, ?_, ?_, q ++ l₁, l₂, ?_, ?_, hne, rfl⟩
    · rw [hsub, hname]
    · rw [← List.append_assoc, names_append hne, hname, List.append_assoc, List.singleton_append]
    · rw [hsub, head?_append_of_ne_nil hq, head?_append_of_ne_nil hq]
    · rw [List.append_assoc]
    · rw [List.length_append]

theorem Cut.first (path : Str) : ∃ name rest, Cut path (findSlash path 1) [] name rest := by
  cases path with
  | nil => exact ⟨[], [], rfl, rfl, rfl, rfl⟩
  | cons a l =>
      refine Cut.search (q := [a]) (List.cons_ne_nil a []) (fun l hnot => ?_) l
      rw [List.singleton_append, names, List.head?_cons]
      by_cases ha : a = '/'
      · rw [if_pos (by rw [ha]), List.tail_cons, List.splitOn_eq_singleton hnot]
        exact ⟨l, rfl⟩
      · have hnot' : '/' ∉ a :: l := List.not_mem_cons_of_ne_of_not_mem (Ne.symm ha) hnot
        rw [if_neg (by simpa using ha), List.splitOn_eq_singleton hnot']
        exact ⟨a :: l, rfl⟩

theorem Cut.next {path : Str} {i : Nat} {ps : List Str} {name : Str} {rest : List Str}
    (h : Cut path (some i) ps name rest) : ∃ name' rest', rest = name' :: rest' ∧
      Cut path (findSlash path (i + 1)) (ps ++ [name]) name' rest' := by
  obtain ⟨p, r, rfl, rfl, hp, rfl⟩ := h.behind
  have hsub : subPath (p ++ '/' :: r) (some p.length) = p := List.take_left
  have hp' : names p = ps ++ [name] := by
    have := h.sub
    rwa [hsub] at this
  have hnames : ∀ l, '/' ∉ l → ∃ name', names (p ++ ['/'] ++ l) = (ps ++ [name]) ++ [name'] := by
    intro l hnot
    rw [List.append_assoc, List.singleton_append, names_append hp, hp', List.splitOn_eq_singleton hnot]
    exact ⟨l, rfl⟩
  have hcut := Cut.search (List.append_ne_nil_of_right_ne_nil p (List.cons_ne_nil '/' [])) hnames r
  rw [List.append_assoc, List.singleton_append, List.length_append, List.length_singleton] at hcut
  obtain ⟨name', rest', hcut⟩ := hcut
  refine ⟨name', rest', ?_, hcut⟩
  have hall := hcut.all
  rw [names_append hp, hp'] at hall
  exact List.append_cancel_left hall

end CUtils.MakeDirs
