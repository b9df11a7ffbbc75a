import CUtils.Directory.Create

/-!
# What becomes of a path

From the files at the beginning one can tell where the names of a path lead and whether they get
stuck (`Creatable`, `way`): at a name behind a file that is not a directory, or where nothing is and
nothing can be made. A file at the end of a path is as good as a directory.

Files only come: what there is later was there at the beginning or is a directory that could be made
(`Grown`), and every call keeps what there is (`Kept`).
-/

namespace CUtils.MakeDirs

open Directory

/-! ## The plan -/

namespace Host

variable (h : Host) (kind₀ : Files)

/-- Nothing is there and nothing can be made. -/
def Bars (node : Node) : Prop := kind₀ node = none ∧ h.denied node = true

instance (node : Node) : Decidable (h.Bars kind₀ node) := inferInstanceAs (Decidable (_ ∧ _))

def Admits : Node → List Str → Prop
  | _, [] => True
  | cur, name :: ns =>
      kind₀ cur ≠ some .file ∧ ¬ h.Bars kind₀ (target cur name) ∧ Admits (target cur name) ns

instance decidableAdmits (cur : Node) (ns : List Str) : Decidable (h.Admits kind₀ cur ns) :=
  match ns with
  | [] => inferInstanceAs (Decidable True)
  | name :: ns =>
      have := decidableAdmits (target cur name) ns
      inferInstanceAs (Decidable (_ ∧ _ ∧ _))

/-- The nodes that the names lead to, up to where one gets stuck. -/
def trail : Node → List Str → List Node
  | _, [] => []
  | cur, name :: ns =>
      if kind₀ cur = some .file ∨ h.Bars kind₀ (target cur name) then []
      else target cur name :: trail (target cur name) ns

def Creatable (path : Str) : Prop := path ≠ [] ∧ h.Admits kind₀ (h.base path) (names path)

instance (path : Str) : Decidable (h.Creatable kind₀ path) := inferInstanceAs (Decidable (_ ∧ _))

def way (path : Str) : List Node := h.trail kind₀ (h.base path) (names path)

/-- What there is now was there at the beginning or is a directory that could be made. -/
def Grown (kind : Files) : Prop :=
  ∀ n, kind n = kind₀ n ∨ kind₀ n = none ∧ kind n = some .dir ∧ h.denied n = false

end Host

def Kept (kind kind' : Files) : Prop := ∀ n k, kind n = some k → kind' n = some k

variable {h : Host} {kind₀ kind kind' : Files}

theorem Kept.refl (kind : Files) : Kept kind kind := fun _ _ hn => hn

theorem Kept.there (hkept : Kept kind kind') {n : Node} (hn : kind n ≠ none) : kind' n ≠ none := by
  obtain ⟨k, hk⟩ := Option.ne_none_iff_exists'.1 hn
  rw [hkept n k hk]
  exact Option.some_ne_none k

namespace Host.Grown

theorem file_iff (hgrown : h.Grown kind₀ kind) (n : Node) :
    kind n = some .file ↔ kind₀ n = some .file := by
  rcases hgrown n with hn | ⟨hnone, hdir, -⟩
  · rw [hn]
  · rw [hnone, hdir]
    simp

theorem dir (hgrown : h.Grown kind₀ kind) {n : Node} (hn : kind n ≠ none)
    (hfile : kind₀ n ≠ some .file) : kind n = some .dir := by
  cases hk : kind n with
  | none => exact absurd hk hn
  | some k =>
      cases k with
      | dir => rfl
      | file => exact absurd ((hgrown.file_iff n).1 hk) hfile

theorem not_bars (hgrown : h.Grown kind₀ kind) {n : Node} (hn : kind n ≠ none) :
    ¬ h.Bars kind₀ n := by
  rintro ⟨hnone, hdenied⟩
  rcases hgrown n with hsame | ⟨-, -, hfree⟩
  · exact hn (hsame.trans hnone)
  · rw [hfree] at hdenied
    cases hdenied

end Host.Grown

/-! ## What the kernel does -/

theorem Files.Sound.tail (hsound : kind.Sound) {cur : Node} (hcur : kind cur ≠ none) :
    kind cur.tail = some .dir := by
  cases cur with
  | nil => exact hsound.root
  | cons name dir => exact hsound.parent name dir hcur

theorem enter_eq (hsound : kind.Sound) (cur : Node) (name : Str) :
    enter kind cur name = if kind cur = some .dir ∧ kind (target cur name) ≠ none
      then some (target cur name) else none := by
  rw [enter, target]
  by_cases hcur : kind cur = some .dir
  · have hthere : kind cur ≠ none := by simp [hcur]
    rw [if_neg (not_not_intro hcur)]
    by_cases hstay : name = [] ∨ name = ['.']
    · rw [if_pos hstay, if_pos hstay, if_pos ⟨hcur, hthere⟩]
    · rw [if_neg hstay, if_neg hstay]
      by_cases hback : name = ['.', '.']
      · have htail : kind cur.tail ≠ none := by simp [hsound.tail hthere]
        rw [if_pos hback, if_pos hback, if_pos ⟨hcur, htail⟩]
      · rw [if_neg hback, if_neg hback]
        by_cases hnone : kind (name :: cur) = none
        · rw [if_pos hnone, if_neg fun hn => hn.2 hnone]
        · rw [if_neg hnone, if_pos ⟨hcur, hnone⟩]
  · rw [if_pos hcur, if_neg fun hn => hcur hn.1]

theorem enter_some (hsound : kind.Sound) {cur node : Node} {name : Str}
    (henter : enter kind cur name = some node) :
    kind cur = some .dir ∧ node = target cur name ∧ kind node ≠ none := by
  rw [enter_eq hsound] at henter
  obtain ⟨⟨hcur, hthere⟩, hnode⟩ := Option.ite_none_right_eq_some.1 henter
  have hnode := Option.some.inj hnode
  exact ⟨hcur, hnode.symm, hnode ▸ hthere⟩

theorem makeAt_eq (hsound : kind.Sound) (dir : Node) {name : Str} (hname : name ≠ []) :
    h.makeAt kind dir name =
      if kind dir ≠ some .dir then .error .other
      else if kind (target dir name) ≠ none then .error .eexist
      else if h.denied (target dir name) then .error .other
      else .ok (Function.update kind (target dir name) (some .dir)) := by
  rw [Host.makeAt, target]
  by_cases hdir : kind dir = some .dir
  · have hthere : kind dir ≠ none := by simp [hdir]
    rw [if_neg (not_not_intro hdir), if_neg (not_not_intro hdir)]
    by_cases hstay : name = ['.']
    · have hfirst : name = ['.'] ∨ name = ['.', '.'] := .inl hstay
      have hsecond : name = [] ∨ name = ['.'] := .inr hstay
      rw [if_pos hfirst, if_pos hsecond, if_pos hthere]
    · have hnot : ¬ (name = [] ∨ name = ['.']) := not_or.2 ⟨hname, hstay⟩
      rw [if_neg hnot]
      by_cases hback : name = ['.', '.']
      · have hfirst : name = ['.'] ∨ name = ['.', '.'] := .inr hback
        have htail : kind dir.tail ≠ none := by simp [hsound.tail hthere]
        rw [if_pos hfirst, if_pos hback, if_pos htail]
      · rw [if_neg (not_or.2 ⟨hstay, hback⟩), if_neg hback]
  · rw [if_pos hdir, if_pos hdir]

theorem walk_concat (kind : Files) (cur : Node) (ns : List Str) (name : Str) :
    walk kind cur (ns ++ [name]) = (walk kind cur ns).bind fun node => enter kind node name := by
  induction ns generalizing cur with
  | nil =>
      rw [List.nil_append, walk, walk, Option.bind_some]
      exact Option.bind_fun_some _
  | cons n ns ih =>
      rw [List.cons_append, walk, walk, Option.bind_assoc]
      congr 1
      funext node
      exact ih node

/-- Without its empty names a path leads to the same node. -/
theorem walk_filter {cur node : Node} {ns : List Str} (hwalk : walk kind cur ns = some node) :
    walk kind cur (ns.filter (· ≠ [])) = some node := by
  induction ns generalizing cur with
  | nil => exact hwalk
  | cons name ns ih =>
      obtain ⟨mid, henter, hrest⟩ := Option.bind_eq_some_iff.1 hwalk
      by_cases hname : name = []
      · rw [List.filter_cons_of_neg (by simp [hname])]
        have hmid : mid = cur := by
          have hstay : name = [] ∨ name = ['.'] := .inl hname
          obtain ⟨-, henter⟩ := Option.ite_none_left_eq_some.1 henter
          rw [if_pos hstay] at henter
          exact (Option.some.inj henter).symm
        exact ih (hmid ▸ hrest)
      · rw [List.filter_cons_of_pos (by simpa using hname), walk, henter, Option.bind_some]
        exact ih hrest

theorem walk_kept (hsound : kind.Sound) (hsound' : kind'.Sound) (hkept : Kept kind kind')
    {cur node : Node} {ns : List Str} (hwalk : walk kind cur ns = some node) :
    walk kind' cur ns = some node := by
  induction ns generalizing cur with
  | nil => exact hwalk
  | cons name ns ih =>
      obtain ⟨mid, henter, hrest⟩ := Option.bind_eq_some_iff.1 hwalk
      obtain ⟨hcur, rfl, hthere⟩ := enter_some hsound henter
      rw [walk, enter_eq hsound', if_pos ⟨hkept _ _ hcur, hkept.there hthere⟩, Option.bind_some]
      exact ih hrest

theorem mkdir_concat {path : Str} (hpath : path ≠ []) {ps : List Str} {name : Str}
    (hns : (names path).filter (· ≠ []) = ps ++ [name]) {dir : Node}
    (hwalk : walk kind (h.base path) ps = some dir) :
    h.mkdir kind path = h.makeAt kind dir name := by
  rw [Host.mkdir, if_neg hpath]
  simp only [hns, List.getLast?_concat, List.dropLast_concat, hwalk]

/-- Everything on the way is there, so the path leads to its end unless it gets stuck. -/
theorem walk_isSome_iff (hsound : kind.Sound) (hgrown : h.Grown kind₀ kind) {cur : Node}
    {ns : List Str} (hcur : kind cur ≠ none) (hall : ∀ n ∈ h.trail kind₀ cur ns, kind n ≠ none) :
    (walk kind cur ns).isSome = true ↔ h.Admits kind₀ cur ns := by
  induction ns generalizing cur with
  | nil => exact iff_of_true rfl trivial
  | cons name ns ih =>
      rw [walk, enter_eq hsound, Host.Admits]
      rw [Host.trail] at hall
      by_cases hfile : kind₀ cur = some .file
      · have hstuck : ¬ (kind cur = some .dir ∧ kind (target cur name) ≠ none) := by
          rw [(hgrown.file_iff cur).2 hfile]
          simp
        rw [if_neg hstuck]
        exact iff_of_false Bool.false_ne_true fun hadmits => hadmits.1 hfile
      · by_cases hbars : h.Bars kind₀ (target cur name)
        · have hstuck : ¬ (kind cur = some .dir ∧ kind (target cur name) ≠ none) :=
            fun hn => hgrown.not_bars hn.2 hbars
          rw [if_neg hstuck]
          exact iff_of_false Bool.false_ne_true fun hadmits => hadmits.2.1 hbars
        · rw [if_neg (not_or.2 ⟨hfile, hbars⟩)] at hall
          have hthere := hall _ List.mem_cons_self
          rw [if_pos ⟨hgrown.dir hcur hfile, hthere⟩, Option.bind_some]
          rw [ih hthere fun n hn => hall n (List.mem_cons_of_mem _ hn)]
          exact ⟨fun hadmits => ⟨hfile, hbars, hadmits⟩, fun hadmits => hadmits.2.2⟩

end CUtils.MakeDirs
