import CUtils.Directory.CreatePlan

/-!
# Creating directories together

What a call of `ForceCreateDirectory` returns, and what directories there are in the end, does not
depend on who else calls it and in what order the calls come after one another.

**Each thread** (`Stage`). All nodes up to where it is are there, and what is left of its plan is the
plan from there on. A call of another thread keeps that, since files only come.

**Each call** (`Called`). The thread gets closer to its end, and what it makes is on its way.
-/

namespace CUtils.MakeDirs

open Directory

variable {h : Host} {kind₀ kind kind' : Files}

/-! ## One thread -/

variable (h kind₀) in
/-- The names `ps` of the path have been passed and lead to `cur`; the names `rest` are left. -/
structure Reached (kind : Files) (path : Str) (ps rest : List Str) (cur : Node) : Prop where
  walked : walk kind (h.base path) (ps.filter (· ≠ [])) = some cur
  there : kind cur ≠ none
  way : ∃ l, h.way kind₀ path = l ++ h.trail kind₀ cur rest ∧ ∀ n ∈ l, kind n ≠ none
  admits : h.Creatable kind₀ path → h.Admits kind₀ cur rest

variable (h kind₀) in
/-- A thread and how many steps it has left. -/
inductive Stage (kind : Files) (path : Str) : Pc → Nat → Prop
  | access {index ps name rest cur} (hcut : Cut path index ps name rest)
      (hreached : Reached h kind₀ kind path ps (name :: rest) cur) :
      Stage kind path (.access index) (2 * rest.length + 3)
  | mkdir {index ps name rest cur} (hcut : Cut path index ps name rest)
      (hreached : Reached h kind₀ kind path ps (name :: rest) cur) :
      Stage kind path (.mkdir index) (2 * rest.length + 2)
  | last (hall : ∀ n ∈ h.way kind₀ path, kind n ≠ none) : Stage kind path .last 1
  | ret {b} (hb : b = true ↔ h.Creatable kind₀ path) (hall : ∀ n ∈ h.way kind₀ path, kind n ≠ none) :
      Stage kind path (.ret b) 0

variable {path : Str} {ps rest : List Str} {name : Str} {cur : Node}

theorem Reached.kept (hsound : kind.Sound) (hsound' : kind'.Sound) (hkept : Kept kind kind')
    (hr : Reached h kind₀ kind path ps rest cur) : Reached h kind₀ kind' path ps rest cur := by
  obtain ⟨l, hway, hl⟩ := hr.way
  exact ⟨walk_kept hsound hsound' hkept hr.walked, hkept.there hr.there,
    ⟨l, hway, fun n hn => hkept.there (hl n hn)⟩, hr.admits⟩

theorem Stage.kept (hsound : kind.Sound) (hsound' : kind'.Sound) (hkept : Kept kind kind') {pc : Pc}
    {k : Nat} (hs : Stage h kind₀ kind path pc k) : Stage h kind₀ kind' path pc k := by
  cases hs with
  | access hcut hreached => exact .access hcut (hreached.kept hsound hsound' hkept)
  | mkdir hcut hreached => exact .mkdir hcut (hreached.kept hsound hsound' hkept)
  | last hall => exact .last fun n hn => hkept.there (hall n hn)
  | ret hb hall => exact .ret hb fun n hn => hkept.there (hall n hn)

theorem Reached.pass_dir (hgrown : h.Grown kind₀ kind)
    (hr : Reached h kind₀ kind path ps (name :: rest) cur) (hcur : kind cur = some .dir)
    (hthere : kind (target cur name) ≠ none)
    (hwalked : walk kind (h.base path) ((ps ++ [name]).filter (· ≠ [])) = some (target cur name)) :
    Reached h kind₀ kind path (ps ++ [name]) rest (target cur name) := by
  have hfile : kind₀ cur ≠ some .file := by
    rw [Ne, ← hgrown.file_iff cur, hcur]
    simp
  obtain ⟨l, hway, hl⟩ := hr.way
  rw [Host.trail, if_neg (not_or.2 ⟨hfile, hgrown.not_bars hthere⟩)] at hway
  refine ⟨hwalked, hthere, ⟨l ++ [target cur name], ?_, fun n hn => ?_⟩, fun hc => (hr.admits hc).2.2⟩
  · rw [hway, List.append_assoc, List.singleton_append]
  · rcases List.mem_append.1 hn with hn | hn
    · exact hl n hn
    · rw [List.mem_singleton.1 hn]
      exact hthere

/-- A slash behind a file: `mkdir` finds the file, and the path is stuck there. -/
theorem Reached.pass_file (hgrown : h.Grown kind₀ kind)
    (hr : Reached h kind₀ kind path ps ([] :: rest) cur) (hcur : kind cur = some .file)
    (hwalked : walk kind (h.base path) ((ps ++ [[]]).filter (· ≠ [])) = some cur) :
    Reached h kind₀ kind path (ps ++ [[]]) rest cur := by
  have hfile : kind₀ cur = some .file := (hgrown.file_iff cur).1 hcur
  have htrail : ∀ ns, h.trail kind₀ cur ns = [] := by
    intro ns
    cases ns with
    | nil => rfl
    | cons name ns => rw [Host.trail, if_pos (.inl hfile)]
  obtain ⟨l, hway, hl⟩ := hr.way
  rw [htrail] at hway
  refine ⟨hwalked, hr.there, ⟨l, by rw [hway, htrail], hl⟩, fun hc => ?_⟩
  exact absurd hfile (hr.admits hc).1

/-- The next name leads somewhere. -/
theorem Reached.pass (hsound : kind.Sound) (hgrown : h.Grown kind₀ kind)
    (hr : Reached h kind₀ kind path ps (name :: rest) cur) {node : Node}
    (hwalked : walk kind (h.base path) ((ps ++ [name]).filter (· ≠ [])) = some node) :
    Reached h kind₀ kind path (ps ++ [name]) rest node := by
  by_cases hname : name = []
  · subst hname
    have hsame : (ps ++ [[]]).filter (· ≠ []) = ps.filter (· ≠ []) := by simp
    have hnode : cur = node := by
      have hwalked' := hwalked
      rw [hsame, hr.walked] at hwalked'
      exact Option.some.inj hwalked'
    subst hnode
    have htarget : target cur [] = cur := by simp [target]
    cases hcur : kind cur with
    | none => exact absurd hcur hr.there
    | some k =>
        cases k with
        | dir =>
            have hpass := hr.pass_dir hgrown hcur (by rw [htarget]; exact hr.there)
              (by rw [htarget]; exact hwalked)
            rwa [htarget] at hpass
        | file => exact hr.pass_file hgrown hcur hwalked
  · have hconcat : (ps ++ [name]).filter (· ≠ []) = ps.filter (· ≠ []) ++ [name] := by simp [hname]
    have henter := hwalked
    rw [hconcat, walk_concat, hr.walked, Option.bind_some] at henter
    obtain ⟨hcur, rfl, hthere⟩ := enter_some hsound henter
    exact hr.pass_dir hgrown hcur hthere hwalked

/-- The body has been passed: the next one, or the `access` behind the loop. -/
theorem Stage.next {index : Option Nat} (hcut : Cut path index ps name rest)
    {node : Node} (hr : Reached h kind₀ kind path (ps ++ [name]) rest node) :
    Stage h kind₀ kind path (MakeDirs.next path index) (2 * rest.length + 1) := by
  cases index with
  | none =>
      have hrest : rest = [] := hcut.behind
      subst hrest
      obtain ⟨l, hway, hl⟩ := hr.way
      refine .last fun n hn => ?_
      rw [hway, Host.trail, List.append_nil] at hn
      exact hl n hn
  | some i =>
      obtain ⟨name', rest', rfl, hcut'⟩ := hcut.next
      exact .access hcut' hr

/-- `mkdir` does what the body needs: the next name leads somewhere, or the path is stuck. -/
theorem mkdir_cases (hsound : kind.Sound) (hgrown : h.Grown kind₀ kind) {sub : Str}
    (hsub : sub ≠ []) (hbase : h.base sub = h.base path)
    (hnames : names sub = ps ++ [name])
    (hr : Reached h kind₀ kind path ps (name :: rest) cur) :
    (h.mkdir kind sub = .error .eexist ∧
        ∃ node, walk kind (h.base path) ((ps ++ [name]).filter (· ≠ [])) = some node) ∨
      (h.mkdir kind sub = .error .other ∧ ¬ h.Creatable kind₀ path ∧
        h.trail kind₀ cur (name :: rest) = []) ∨
      (h.mkdir kind sub = .ok (Function.update kind (target cur name) (some .dir)) ∧ name ≠ [] ∧
        kind cur = some .dir ∧ kind (target cur name) = none ∧
        h.denied (target cur name) = false) := by
  by_cases hname : name = []
  · -- a slash at the end: what has been passed is there
    subst hname
    have hsame : (ps ++ [[]]).filter (· ≠ []) = ps.filter (· ≠ []) := by simp
    refine .inl ⟨?_, cur, by rw [hsame]; exact hr.walked⟩
    rcases (ps.filter (· ≠ [])).eq_nil_or_concat with hnil | ⟨init, last, hlast⟩
    · rw [Host.mkdir, if_neg hsub]
      simp only [hnames, hsame, hnil, List.getLast?_nil]
    · have hwalk := hr.walked
      rw [List.concat_eq_append] at hlast
      rw [hlast, walk_concat] at hwalk
      obtain ⟨dir, hdir, henter⟩ := Option.bind_eq_some_iff.1 hwalk
      obtain ⟨hkind, hcur, hthere⟩ := enter_some hsound henter
      have hnonempty : last ≠ [] := by
        have hmem : last ∈ ps.filter (· ≠ []) := by
          rw [hlast]
          exact List.mem_concat_self
        simpa using (List.mem_filter.1 hmem).2
      rw [mkdir_concat hsub (by rw [hnames, hsame, hlast]) (hbase.symm ▸ hdir),
        makeAt_eq hsound dir hnonempty, if_neg (not_not_intro hkind), if_pos (hcur ▸ hthere)]
  · have hconcat : (ps ++ [name]).filter (· ≠ []) = ps.filter (· ≠ []) ++ [name] := by simp [hname]
    rw [mkdir_concat hsub (by rw [hnames, hconcat]) (hbase.symm ▸ hr.walked),
      makeAt_eq hsound cur hname]
    by_cases hcur : kind cur = some .dir
    · rw [if_neg (not_not_intro hcur)]
      by_cases hthere : kind (target cur name) = none
      · rw [if_neg (not_not_intro hthere)]
        cases hdenied : h.denied (target cur name) with
        | true =>
            have hbars : h.Bars kind₀ (target cur name) := by
              refine ⟨?_, hdenied⟩
              rcases hgrown (target cur name) with hsame | ⟨hnone, -, -⟩
              · rw [← hsame, hthere]
              · exact hnone
            refine .inr (.inl ⟨rfl, fun hc => (hr.admits hc).2.1 hbars, ?_⟩)
            rw [Host.trail, if_pos (.inr hbars)]
        | false => exact .inr (.inr ⟨rfl, hname, hcur, hthere, rfl⟩)
      · rw [if_pos hthere]
        refine .inl ⟨rfl, target cur name, ?_⟩
        rw [hconcat, walk_concat, hr.walked, Option.bind_some, enter_eq hsound, if_pos ⟨hcur, hthere⟩]
    · rw [if_pos hcur]
      have hfile : kind₀ cur = some .file := by
        by_contra hnot
        exact hcur (hgrown.dir hr.there hnot)
      refine .inr (.inl ⟨rfl, fun hc => (hr.admits hc).1 hfile, ?_⟩)
      rw [Host.trail, if_pos (.inl hfile)]

variable (h kind₀) in
/-- What a system call of a thread does to the files and to the thread itself. -/
structure Called (kind : Files) (path : Str) (k : Nat) (kind' : Files) (pc' : Pc) : Prop where
  stage : ∃ k', Stage h kind₀ kind' path pc' k' ∧ k' ≤ k - 1
  kept : Kept kind kind'
  sound : kind'.Sound
  grown : h.Grown kind₀ kind'
  made : ∀ n, kind' n ≠ kind n → n ∈ h.way kind₀ path

theorem Called.same {k k' : Nat} {pc' : Pc} (hsound : kind.Sound) (hgrown : h.Grown kind₀ kind)
    (hs : Stage h kind₀ kind path pc' k') (hk : k' ≤ k - 1) :
    Called h kind₀ kind path k kind pc' :=
  ⟨⟨k', hs, hk⟩, .refl kind, hsound, hgrown, fun _ hn => absurd rfl hn⟩

theorem Reached.all_of_stuck (hr : Reached h kind₀ kind path ps (name :: rest) cur)
    (hstuck : h.trail kind₀ cur (name :: rest) = []) : ∀ n ∈ h.way kind₀ path, kind n ≠ none := by
  obtain ⟨l, hway, hl⟩ := hr.way
  intro n hn
  rw [hway, hstuck, List.append_nil] at hn
  exact hl n hn

/-- A directory is made. -/
theorem Called.make (hsound : kind.Sound) (hgrown : h.Grown kind₀ kind)
    {index : Option Nat} (hcut : Cut path index ps name rest)
    (hr : Reached h kind₀ kind path ps (name :: rest) cur) (hname : name ≠ [])
    (hcur : kind cur = some .dir) (hnone : kind (target cur name) = none)
    (hfree : h.denied (target cur name) = false) :
    Called h kind₀ kind path (2 * rest.length + 2)
      (Function.update kind (target cur name) (some .dir)) (next path index) := by
  have hself := Function.update_self (target cur name) (some Kind.dir) kind
  have hother : ∀ n, n ≠ target cur name →
      Function.update kind (target cur name) (some Kind.dir) n = kind n :=
    fun n hn => Function.update_of_ne hn _ _
  have hkept : Kept kind (Function.update kind (target cur name) (some .dir)) := by
    intro n k hn
    rw [hother n fun heq => by rw [heq, hnone] at hn; cases hn]
    exact hn
  have hthere : kind cur ≠ none := hr.there
  have htarget : target cur name = name :: cur := by
    rw [target] at hnone ⊢
    by_cases hstay : name = [] ∨ name = ['.']
    · rw [if_pos hstay] at hnone
      exact absurd hnone hthere
    · rw [if_neg hstay] at hnone ⊢
      by_cases hback : name = ['.', '.']
      · rw [if_pos hback, hsound.tail hthere] at hnone
        cases hnone
      · rw [if_neg hback]
  have hsound' : Files.Sound (Function.update kind (target cur name) (some .dir)) := by
    refine ⟨hkept _ _ hsound.root, fun name' dir hn => ?_⟩
    by_cases heq : name' :: dir = target cur name
    · rw [htarget] at heq
      obtain ⟨-, rfl⟩ := List.cons.inj heq
      exact hkept _ _ hcur
    · rw [hother _ heq] at hn
      exact hkept _ _ (hsound.parent name' dir hn)
  have hgrown' : h.Grown kind₀ (Function.update kind (target cur name) (some .dir)) := by
    intro n
    by_cases heq : n = target cur name
    · subst heq
      refine .inr ⟨?_, hself, hfree⟩
      rcases hgrown (target cur name) with hsame | ⟨hn, -, -⟩
      · rw [← hsame, hnone]
      · exact hn
    · rw [hother n heq]
      exact hgrown n
  have hr' := hr.kept hsound hsound' hkept
  have hwalked : walk (Function.update kind (target cur name) (some .dir)) (h.base path)
      ((ps ++ [name]).filter (· ≠ [])) = some (target cur name) := by
    have hconcat : (ps ++ [name]).filter (· ≠ []) = ps.filter (· ≠ []) ++ [name] := by simp [hname]
    rw [hconcat, walk_concat, hr'.walked, Option.bind_some, enter_eq hsound',
      if_pos ⟨hkept _ _ hcur, by rw [hself]; exact Option.some_ne_none _⟩]
  refine ⟨⟨_, Stage.next hcut (hr'.pass hsound' hgrown' hwalked), by omega⟩, hkept, hsound',
    hgrown', fun n hn => ?_⟩
  have hn : n = target cur name := by
    by_contra hne
    exact hn (hother n hne)
  have hfile : kind₀ cur ≠ some .file := by
    rw [Ne, ← hgrown.file_iff cur, hcur]
    simp
  have hbars : ¬ h.Bars kind₀ (target cur name) := by
    rintro ⟨-, hdenied⟩
    rw [hfree] at hdenied
    cases hdenied
  obtain ⟨l, hway, -⟩ := hr.way
  rw [hway, Host.trail, if_neg (not_or.2 ⟨hfile, hbars⟩), hn]
  exact List.mem_append_right l List.mem_cons_self

/-- **One system call.** -/
theorem Stage.call (hsound : kind.Sound) (hgrown : h.Grown kind₀ kind)
    (hbase : kind (h.base path) ≠ none) {pc : Pc} {k : Nat} (hs : Stage h kind₀ kind path pc k) :
    Called h kind₀ kind path k (h.call kind path pc).1 (h.call kind path pc).2 := by
  cases hs with
  | @access index ps name rest cur hcut hr =>
      have hsame : h.base (subPath path index) = h.base path := by
        rw [Host.base, Host.base, hcut.head]
      rw [Host.call]
      by_cases haccess : h.access kind (subPath path index) = true
      · rw [if_pos haccess]
        obtain ⟨-, hwalk⟩ := of_decide_eq_true haccess
        rw [hsame, hcut.sub] at hwalk
        obtain ⟨node, hnode⟩ := Option.isSome_iff_exists.1 hwalk
        exact .same hsound hgrown
          (Stage.next hcut (hr.pass hsound hgrown (walk_filter hnode))) (by omega)
      · rw [if_neg haccess]
        exact .same hsound hgrown (.mkdir hcut hr) (by omega)
  | @mkdir index ps name rest cur hcut hr =>
      have hsame : h.base (subPath path index) = h.base path := by
        rw [Host.base, Host.base, hcut.head]
      by_cases hpath : path = []
      · -- `mkdir("")` fails
        have hsub : subPath path index = [] := by
          rw [← List.head?_eq_none_iff, hcut.head, hpath, List.head?_nil]
        have hmkdir : h.mkdir kind (subPath path index) = .error .other := by
          rw [Host.mkdir, if_pos hsub]
        have hall : ∀ n ∈ h.way kind₀ path, kind n ≠ none := by
          intro n hn
          rw [hpath] at hn hbase
          have hn : n ∈ h.trail kind₀ (h.base []) [[]] := hn
          rw [Host.trail] at hn
          split at hn
          · exact absurd hn List.not_mem_nil
          · have hn : n = h.base [] := by simpa [Host.trail, target] using hn
            rw [hn]
            exact hbase
        simp only [Host.call, hmkdir]
        refine .same hsound hgrown (.ret (iff_of_false Bool.false_ne_true fun hc => ?_) hall)
          (Nat.zero_le _)
        exact hc.1 hpath
      · have hsub : subPath path index ≠ [] := by
          intro hnil
          apply hpath
          rw [← List.head?_eq_none_iff, ← hcut.head, hnil, List.head?_nil]
        rcases mkdir_cases hsound hgrown hsub hsame hcut.sub hr with
          ⟨hmkdir, node, hwalk⟩ | ⟨hmkdir, hnot, hstuck⟩ | ⟨hmkdir, hname, hcur, hnone, hfree⟩
        · simp only [Host.call, hmkdir]
          exact .same hsound hgrown (Stage.next hcut (hr.pass hsound hgrown hwalk)) (by omega)
        · simp only [Host.call, hmkdir]
          exact .same hsound hgrown (.ret (iff_of_false Bool.false_ne_true hnot)
            (hr.all_of_stuck hstuck)) (Nat.zero_le _)
        · simp only [Host.call, hmkdir]
          exact .make hsound hgrown hcut hr hname hcur hnone hfree
  | last hall =>
      refine .same hsound hgrown (.ret ?_ hall) (Nat.zero_le _)
      rw [Host.access, decide_eq_true_iff, walk_isSome_iff hsound hgrown hbase hall]
      rfl
  | ret hb hall => exact .same hsound hgrown (.ret hb hall) (Nat.zero_le _)

/-! ## All threads -/

/-- How many system calls a call of `ForceCreateDirectory` makes at most. -/
def calls (path : Str) : Nat := 2 * (names path).length + 1

variable {ι : Type} [DecidableEq ι] {paths : ι → Str} {s : State ι} {ts : List ι}

variable (h kind₀ paths) in
/-- After the threads `ts` have made their calls. -/
structure Together (s : State ι) (ts : List ι) : Prop where
  sound : s.kind.Sound
  grown : h.Grown kind₀ s.kind
  base : ∀ t, s.kind (h.base (paths t)) ≠ none
  made : ∀ n, s.kind n ≠ kind₀ n → ∃ t, n ∈ h.way kind₀ (paths t)
  stages : ∀ t, ∃ k, Stage h kind₀ s.kind (paths t) (s.pc t) k ∧ k ≤ calls (paths t) - ts.count t

theorem Together.start (hsound : kind₀.Sound) (hcwd : kind₀ h.cwd = some .dir) :
    Together h kind₀ paths (State.start paths kind₀) [] := by
  have hbase : ∀ t, kind₀ (h.base (paths t)) ≠ none := by
    intro t
    rw [Host.base]
    split
    · simp [hsound.root]
    · simp [hcwd]
  refine ⟨hsound, fun n => .inl rfl, hbase, fun n hn => absurd rfl hn, fun t => ?_⟩
  obtain ⟨name, rest, hcut⟩ := Cut.first (paths t)
  have hall : names (paths t) = name :: rest := hcut.all
  refine ⟨_, .access hcut ⟨rfl, hbase t, ⟨[], ?_, fun n hn => absurd hn List.not_mem_nil⟩, ?_⟩, ?_⟩
  · rw [Host.way, hall, List.nil_append]
  · intro hc
    rw [← hall]
    exact hc.2
  · rw [calls, hall, List.length_cons, List.count_nil]
    omega

theorem Together.step (hs : Together h kind₀ paths s ts) (t : ι) :
    Together h kind₀ paths (s.step h paths t) (ts ++ [t]) := by
  obtain ⟨k, hstage, hk⟩ := hs.stages t
  have hcall := hstage.call hs.sound hs.grown (hs.base t)
  refine ⟨hcall.sound, hcall.grown, fun u => hcall.kept.there (hs.base u), fun n hn => ?_, fun u => ?_⟩
  · by_cases hsame : (h.call s.kind (paths t) (s.pc t)).1 n = s.kind n
    · exact hs.made n (hsame ▸ hn)
    · exact ⟨t, hcall.made n hsame⟩
  · rw [List.count_append]
    by_cases hu : u = t
    · subst hu
      obtain ⟨k', hstage', hk'⟩ := hcall.stage
      have hpc : (s.step h paths u).pc u = (h.call s.kind (paths u) (s.pc u)).2 :=
        Function.update_self u _ s.pc
      refine ⟨k', hpc ▸ hstage', ?_⟩
      rw [List.count_singleton_self]
      omega
    · obtain ⟨k', hstage', hk'⟩ := hs.stages u
      have hpc : (s.step h paths t).pc u = s.pc u := Function.update_of_ne hu _ s.pc
      have hcount : List.count u [t] = 0 := List.count_eq_zero.2 (by simpa using hu)
      refine ⟨k', hpc ▸ hstage'.kept hs.sound hcall.sound hcall.kept, ?_⟩
      omega

theorem Together.run (hs : Together h kind₀ paths s ts) (us : List ι) :
    Together h kind₀ paths (s.run h paths us) (ts ++ us) := by
  induction us generalizing s ts with
  | nil =>
      rw [List.append_nil]
      exact hs
  | cons t us ih =>
      have hrest := ih (hs.step t)
      rwa [List.append_assoc, List.singleton_append] at hrest

/-- **`ForceCreateDirectory` from many threads.** In whatever order their system calls come, a call
returns `true` exactly if the files at the beginning let its path be created; it has returned after
two calls for every name and one more; and when all have returned, the files are those at the
beginning and the directories on the ways of the paths. -/
theorem created_together (hsound : kind₀.Sound) (hcwd : kind₀ h.cwd = some .dir) (ts : List ι) :
    (∀ t b, ((State.start paths kind₀).run h paths ts).pc t = .ret b →
      (b = true ↔ h.Creatable kind₀ (paths t))) ∧
    (∀ t, calls (paths t) ≤ ts.count t →
      ∃ b, ((State.start paths kind₀).run h paths ts).pc t = .ret b) ∧
    ((∀ t, ∃ b, ((State.start paths kind₀).run h paths ts).pc t = .ret b) → ∀ n,
      (kind₀ n = none ∧ (∃ t, n ∈ h.way kind₀ (paths t)) →
        ((State.start paths kind₀).run h paths ts).kind n = some .dir) ∧
      (¬ (kind₀ n = none ∧ ∃ t, n ∈ h.way kind₀ (paths t)) →
        ((State.start paths kind₀).run h paths ts).kind n = kind₀ n)) := by
  have hstart : Together h kind₀ paths (State.start paths kind₀) [] := .start hsound hcwd
  have hs := hstart.run ts
  rw [List.nil_append] at hs
  refine ⟨fun t b hb => ?_, fun t ht => ?_, fun hret n => ⟨?_, fun hnot => ?_⟩⟩
  · obtain ⟨k, hstage, -⟩ := hs.stages t
    rw [hb] at hstage
    cases hstage with
    | ret hb hall => exact hb
  · obtain ⟨k, hstage, hk⟩ := hs.stages t
    have hk : k = 0 := by omega
    cases hpc : ((State.start paths kind₀).run h paths ts).pc t with
    | ret b => exact ⟨b, rfl⟩
    | access index =>
        rw [hpc, hk] at hstage
        cases hstage
    | mkdir index =>
        rw [hpc, hk] at hstage
        cases hstage
    | last =>
        rw [hpc, hk] at hstage
        cases hstage
  · rintro ⟨hnone, t, ht⟩
    obtain ⟨b, hb⟩ := hret t
    obtain ⟨k, hstage, -⟩ := hs.stages t
    rw [hb] at hstage
    cases hstage with
    | ret hb hall =>
        refine hs.grown.dir (hall n ht) ?_
        rw [hnone]
        simp
  · by_contra hne
    refine hnot ⟨?_, hs.made n hne⟩
    rcases hs.grown n with hsame | ⟨hnone, -, -⟩
    · exact absurd hsame hne
    · exact hnone

/-- Nothing but the root, where everything can be made. -/
def bare : Files := fun n => if n = [] then some .dir else none

theorem bare_sound : bare.Sound := by
  refine ⟨rfl, fun name dir hn => absurd ?_ hn⟩
  rw [bare, if_neg (List.cons_ne_nil name dir)]

def bothPaths (t : Bool) : Str :=
  if t then ['/', 'a', '/', '/', 'b'] else ['/', 'a', '/', '.', '.', '/', 'a', '/', 'b']

def inTurns : List Bool := (List.replicate 9 [true, false]).flatten

/-- Both find that `/a` is missing, and the second one comes too late to make it. -/
theorem created_together_racing :
    ((State.start bothPaths bare).run ⟨[], fun _ => false⟩ bothPaths inTurns).pc true = .ret true ∧
    ((State.start bothPaths bare).run ⟨[], fun _ => false⟩ bothPaths inTurns).pc false = .ret true := by
  have h := @created_together ⟨[], fun _ => false⟩ bare Bool _ bothPaths bare_sound rfl inTurns
  obtain ⟨b, hb⟩ := h.2.1 true (by decide)
  obtain ⟨b', hb'⟩ := h.2.1 false (by decide)
  rw [hb, hb', (h.1 true b hb).2 (by decide), (h.1 false b' hb').2 (by decide)]
  exact ⟨rfl, rfl⟩

end CUtils.MakeDirs
