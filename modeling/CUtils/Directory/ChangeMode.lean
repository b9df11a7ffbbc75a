import CUtils.Directory.Spelling
import Mathlib.Data.List.Basic
import Mathlib.Logic.Function.Basic

/-!
# `ChangeModeDirectory`

A directory is changed after everything in it. The result for each subdirectory goes into one
variable, which the next subdirectory overwrites, so the result tells what happened along one chain:
the directory itself, the last subdirectory that `readdir` returns, the last one in that, and so on
(`chain`). A failure elsewhere in the tree is reported only if there is one on the chain as well.

The directory itself is changed under its path without a trailing slash. For the root of the file
system nothing is left of it then, `access` does not find it, and its mode stays as it is.

`changeModeDirectory_reports_iff` says when the result can be trusted.
-/

namespace CUtils.Directory

/-- A `mode_t`. -/
abbrev Mode := BitVec 32

/-! ## System calls -/

/-- Which calls succeed on a path, and which file it leads to. Links may lead to one file from many
paths. -/
structure Host (ν : Type) where
  opendir : Str → Bool
  access : Str → Bool
  chmod : Str → Bool
  node : Str → ν
  /-- The empty path leads nowhere. -/
  access_nil : access [] = false
  /-- A slash behind the path of a directory makes no difference. -/
  node_slash : ∀ path, path ≠ [] → node (path ++ ['/']) = node path

inductive Event
  | opendir (path : Str) (ok : Bool)
  | closedir (path : Str)
  | chmod (path : Str) (ok : Bool)
  deriving DecidableEq, Repr

def Event.ok : Event → Bool
  | opendir _ ok | chmod _ ok => ok
  | closedir _ => true

structure Files (ν : Type) where
  mode : ν → Mode
  /-- The calls so far, the last one first. -/
  log : List Event := []

section Model

variable {ν : Type} [DecidableEq ν] (h : Host ν) (mode : Mode)

def Files.opendir (s : Files ν) (path : Str) : Files ν :=
  { s with log := .opendir path (h.opendir path) :: s.log }

def Files.closedir (s : Files ν) (path : Str) : Files ν := { s with log := .closedir path :: s.log }

/-! ## `directory_ex.cpp` -/

def changeMode (fileName : Str) (s : Files ν) : Bool × Files ν :=
  (h.chmod fileName,
    { mode := if h.chmod fileName then Function.update s.mode (h.node fileName) mode else s.mode
      log := .chmod fileName (h.chmod fileName) :: s.log })

def changeModeFile (fileName : Str) (s : Files ν) : Bool × Files ν :=
  if !h.access fileName then (false, s) else changeMode h mode fileName s

/-- What `ChangeModeDirectory` does once it has read the directory; `none` if the loop has returned
`false` from within. -/
def changeSelf (path : Str) (r : Option Bool × Files ν) : Bool × Files ν :=
  match r.1 with
  | none => (false, r.2)
  | some ret =>
      let s := r.2.closedir path
      let currentPath := excludeTrailingPathDelimiter path
      if h.access currentPath then
        let c := changeMode h mode currentPath s
        if !c.1 then (false, c.2) else (ret, c.2)
      else (ret, s)

/-- The loop of `ChangeModeDirectory`, where `ret` is overwritten by the result for each
subdirectory. -/
def changeLoop (path : Str) : Entries → Bool → Files ν → Option Bool × Files ν
  | .nil, ret, s => (some ret, s)
  | .dots rest, ret, s => changeLoop path rest ret s
  | .dir name sub rest, _, s =>
      let subPath := includeTrailingPathDelimiter path ++ name.toList
      -- the recursive call of `ChangeModeDirectory`
      let r :=
        if !h.opendir subPath then (false, s.opendir h subPath)
        else changeSelf h mode subPath (changeLoop subPath sub true (s.opendir h subPath))
      changeLoop path rest r.1 r.2
  | .file name rest, ret, s =>
      let subPath := includeTrailingPathDelimiter path ++ name.toList
      if h.access subPath then
        let c := changeMode h mode subPath s
        if !c.1 then (none, c.2.closedir path) else changeLoop path rest ret c.2
      else changeLoop path rest ret s

/-- `ChangeModeDirectory` on a directory with the given entries. -/
def changeModeDirectory (path : Str) (entries : Entries) (s : Files ν) : Bool × Files ν :=
  if !h.opendir path then (false, s.opendir h path)
  else changeSelf h mode path (changeLoop h mode path entries true (s.opendir h path))

end Model

/-! ## Directories of a tree -/

namespace Entries

/-- The directories below `path`, with their entries. -/
def subDirs (path : Str) : Entries → List (Str × Entries)
  | nil => []
  | dots rest | file _ rest => rest.subDirs path
  | dir name sub rest =>
      let subPath := includeTrailingPathDelimiter path ++ name.toList
      (subPath, sub) :: (sub.subDirs subPath ++ rest.subDirs path)

/-- The last subdirectory, the last one in that, and so on. -/
def chain (path : Str) : Entries → List (Str × Entries)
  | nil => []
  | dots rest | file _ rest => rest.chain path
  | dir name sub rest =>
      let subPath := includeTrailingPathDelimiter path ++ name.toList
      if rest.dirs = 0 then (subPath, sub) :: sub.chain subPath else rest.chain path

/-- The paths of everything below `path`, as they are put together. -/
def subPaths (path : Str) : Entries → List Str
  | nil => []
  | dots rest => rest.subPaths path
  | file name rest => (includeTrailingPathDelimiter path ++ name.toList) :: rest.subPaths path
  | dir name sub rest =>
      let subPath := includeTrailingPathDelimiter path ++ name.toList
      subPath :: (sub.subPaths subPath ++ rest.subPaths path)

/-- The paths of what is in `path` and no directory. -/
def filePaths (path : Str) : Entries → List Str
  | nil => []
  | dots rest | dir _ _ rest => rest.filePaths path
  | file name rest => (includeTrailingPathDelimiter path ++ name.toList) :: rest.filePaths path

end Entries

variable {ν : Type} {h : Host ν} {mode : Mode}

/-- If the path is found, it can be changed. -/
def Host.Changeable (h : Host ν) (path : Str) : Prop := h.access path = true → h.chmod path = true

theorem Host.changeable_of_not_found {path : Str} (hfound : h.access path = false) :
    h.Changeable path := fun htrue => by
  rw [hfound] at htrue
  cases htrue

theorem Host.not_changeable {path : Str} (hfound : h.access path = true)
    (hchmod : h.chmod path = false) : ¬ h.Changeable path := fun hself => by
  have hok := hself hfound
  rw [hchmod] at hok
  cases hok

/-- A path that is not found is no path to what is found. -/
theorem Host.mem_cons_of_found {path c : Str} {l : List Str} (hpath : h.access path = false)
    (hc : h.access c = true) : c ∈ path :: l ↔ c ∈ l := by
  rw [List.mem_cons]
  refine or_iff_right ?_
  rintro rfl
  rw [hpath] at hc
  cases hc

/-- The directory can be opened, and it and the files in it can be changed. -/
structure Host.Clean (h : Host ν) (d : Str × Entries) : Prop where
  opens : h.opendir d.1 = true
  files : ∀ c ∈ d.2.filePaths d.1, h.Changeable c
  self : h.Changeable (excludeTrailingPathDelimiter d.1)

/-! ## Effects -/

/-- The calls all succeed exactly if `good` holds, and then the files the paths `l` lead to have got
the mode and no others. -/
structure Effect (h : Host ν) (mode : Mode) (good : Prop) (l : List Str) (s s' : Files ν) : Prop where
  log : ∃ new, s'.log = new ++ s.log ∧ ((∀ e ∈ new, e.ok = true) ↔ good)
  modes : good → ∀ n, s'.mode n = mode ↔
    s.mode n = mode ∨ ∃ c ∈ l, h.access c = true ∧ h.node c = n

namespace Effect

variable {good good' : Prop} {l l' : List Str} {s s₁ s₂ : Files ν}

theorem trans (h₁ : Effect h mode good l s s₁) (h₂ : Effect h mode good' l' s₁ s₂) :
    Effect h mode (good ∧ good') (l ++ l') s s₂ := by
  obtain ⟨new, hnew, hok⟩ := h₁.log
  obtain ⟨new', hnew', hok'⟩ := h₂.log
  refine ⟨⟨new' ++ new, by rw [hnew', hnew, List.append_assoc], ?_⟩, fun hgood n => ?_⟩
  · rw [List.forall_mem_append, hok, hok', and_comm]
  · rw [h₂.modes hgood.2, h₁.modes hgood.1, or_assoc]
    simp only [List.mem_append, or_and_right, exists_or]

theorem congr (h₁ : Effect h mode good l s s₁) (hgood : good ↔ good')
    (hl : good' → ∀ c, h.access c = true → (c ∈ l ↔ c ∈ l')) : Effect h mode good' l' s s₁ := by
  obtain ⟨new, hnew, hok⟩ := h₁.log
  refine ⟨⟨new, hnew, hok.trans hgood⟩, fun hg n => ?_⟩
  rw [h₁.modes (hgood.2 hg)]
  refine or_congr_right (exists_congr fun c => ?_)
  constructor
  · exact fun ⟨hc, hrest⟩ => ⟨(hl hg c hrest.1).1 hc, hrest⟩
  · exact fun ⟨hc, hrest⟩ => ⟨(hl hg c hrest.1).2 hc, hrest⟩

theorem opendir (h : Host ν) (mode : Mode) (path : Str) (s : Files ν) :
    Effect h mode (h.opendir path = true) [] s (s.opendir h path) :=
  ⟨⟨[_], rfl, by simp [Event.ok]⟩, fun _ n => by simp [Files.opendir]⟩

theorem closedir (h : Host ν) (mode : Mode) (path : Str) (s : Files ν) :
    Effect h mode True [] s (s.closedir path) :=
  ⟨⟨[_], rfl, by simp [Event.ok]⟩, fun _ n => by simp [Files.closedir]⟩

theorem changeMode [DecidableEq ν] (mode : Mode) {path : Str} (hfound : h.access path = true)
    (s : Files ν) :
    Effect h mode (h.chmod path = true) [path] s (changeMode h mode path s).2 := by
  refine ⟨⟨[_], rfl, by simp [Event.ok]⟩, fun hok n => ?_⟩
  show (if h.chmod path then Function.update s.mode (h.node path) mode else s.mode) n = mode ↔ _
  rw [if_pos hok]
  by_cases hn : n = h.node path
  · subst hn
    rw [Function.update_self]
    exact iff_of_true rfl (Or.inr ⟨path, by simp, hfound, rfl⟩)
  · rw [Function.update_of_ne hn]
    refine (or_iff_left ?_).symm
    rintro ⟨c, hc, -, rfl⟩
    rw [List.mem_singleton.1 hc] at hn
    exact hn rfl

end Effect

/-! ## What the loop and the function do -/

theorem chain_eq_nil {es : Entries} (path : Str) (hes : es.dirs = 0) : es.chain path = [] := by
  induction es with
  | nil => rfl
  | dots rest ih => exact ih hes
  | file name rest ih => exact ih hes
  | dir name sub rest ihsub ih =>
      rw [Entries.dirs] at hes
      omega

/-- A run of the loop. -/
structure Looped (h : Host ν) (mode : Mode) (path : Str) (es : Entries) (ret : Bool) (s : Files ν)
    (r : Option Bool × Files ν) : Prop where
  effect : Effect h mode
    ((∀ c ∈ es.filePaths path, h.Changeable c) ∧ ∀ d ∈ es.subDirs path, h.Clean d)
    (es.subPaths path) s r.2
  stopped : r.1 = none ↔ ¬ ∀ c ∈ es.filePaths path, h.Changeable c
  ret : ∀ b, r.1 = some b →
    (b = true ↔ if es.dirs = 0 then ret = true else ∀ d ∈ es.chain path, h.Clean d)

/-- A run of the function. -/
structure Changed (h : Host ν) (mode : Mode) (path : Str) (es : Entries) (s : Files ν)
    (r : Bool × Files ν) : Prop where
  effect : Effect h mode (∀ d ∈ (path, es) :: es.subDirs path, h.Clean d)
    (excludeTrailingPathDelimiter path :: es.subPaths path) s r.2
  result : r.1 = true ↔ ∀ d ∈ (path, es) :: es.chain path, h.Clean d

variable {path : Str} {es : Entries} {s : Files ν}

theorem Changed.of_closed (hopen : h.opendir path = false) :
    Changed h mode path es s (false, s.opendir h path) := by
  have hnot : ∀ l : List (Str × Entries), ¬ ∀ d ∈ (path, es) :: l, h.Clean d := fun l hall => by
    have hopens := (hall _ (List.mem_cons_self ..)).opens
    rw [hopen] at hopens
    cases hopens
  refine ⟨(Effect.opendir h mode path s).congr ?_ fun hg => absurd hg (hnot _), ?_⟩
  · exact iff_of_false (by rw [hopen]; exact Bool.false_ne_true) (hnot _)
  · exact iff_of_false Bool.false_ne_true (hnot _)

theorem Host.clean_iff (hopen : h.opendir path = true) (es : Entries) : h.Clean (path, es) ↔
    (∀ c ∈ es.filePaths path, h.Changeable c) ∧
      h.Changeable (excludeTrailingPathDelimiter path) :=
  ⟨fun hc => ⟨hc.files, hc.self⟩, fun hc => ⟨hopen, hc.1, hc.2⟩⟩

variable [DecidableEq ν]

theorem Changed.of_looped (hopen : h.opendir path = true) {r : Option Bool × Files ν}
    (hloop : Looped h mode path es true (s.opendir h path) r) :
    Changed h mode path es s (changeSelf h mode path r) := by
  obtain ⟨o, s'⟩ := r
  have hread := (Effect.opendir h mode path s).trans hloop.effect
  cases o with
  | none =>
      have hfiles := hloop.stopped.1 rfl
      have hnot : ∀ l : List (Str × Entries), ¬ ∀ d ∈ (path, es) :: l, h.Clean d :=
        fun l hall => hfiles (hall _ (List.mem_cons_self ..)).files
      refine ⟨hread.congr ?_ fun hg => absurd hg (hnot _), ?_⟩
      · exact iff_of_false (fun hg => hfiles hg.2.1) (hnot _)
      · exact iff_of_false Bool.false_ne_true (hnot _)
  | some b =>
      have hfiles : ∀ c ∈ es.filePaths path, h.Changeable c := by
        by_contra hnot
        cases hloop.stopped.2 hnot
      have hret : b = true ↔ ∀ d ∈ es.chain path, h.Clean d := by
        refine (hloop.ret b rfl).trans ?_
        by_cases hdirs : es.dirs = 0
        · rw [if_pos hdirs, chain_eq_nil path hdirs]
          simp
        · rw [if_neg hdirs]
      have hclosed := hread.trans (Effect.closedir h mode path s')
      have hclean := h.clean_iff hopen es
      rw [changeSelf]
      dsimp only
      cases hfound : h.access (excludeTrailingPathDelimiter path) with
      | false =>
          have hself := h.changeable_of_not_found hfound
          refine ⟨hclosed.congr ?_ fun _ c hc => ?_, ?_⟩
          · rw [List.forall_mem_cons, hclean]
            exact ⟨fun hg => ⟨⟨hfiles, hself⟩, hg.1.2.2⟩, fun hg => ⟨⟨hopen, hfiles, hg.2⟩, trivial⟩⟩
          · rw [h.mem_cons_of_found hfound hc, List.nil_append, List.append_nil]
          · rw [List.forall_mem_cons, hclean]
            exact hret.trans (and_iff_right ⟨hfiles, hself⟩).symm
      | true =>
          have hall := hclosed.trans (Effect.changeMode mode hfound (s'.closedir path))
          have hfst : (changeMode h mode (excludeTrailingPathDelimiter path) (s'.closedir path)).1 =
              h.chmod (excludeTrailingPathDelimiter path) := rfl
          rw [if_pos rfl, hfst]
          cases hchmod : h.chmod (excludeTrailingPathDelimiter path) with
          | false =>
              have hnot : ∀ l : List (Str × Entries), ¬ ∀ d ∈ (path, es) :: l, h.Clean d :=
                fun l hl => h.not_changeable hfound hchmod (hl _ (List.mem_cons_self ..)).self
              refine ⟨hall.congr (iff_of_false (fun hg => ?_) (hnot _)) fun hg => absurd hg (hnot _),
                iff_of_false Bool.false_ne_true (hnot _)⟩
              rw [hchmod] at hg
              exact Bool.false_ne_true hg.2
          | true =>
              have hself : h.Changeable (excludeTrailingPathDelimiter path) := fun _ => hchmod
              refine ⟨hall.congr ?_ fun _ c _ => ?_, ?_⟩
              · rw [List.forall_mem_cons, hclean]
                exact ⟨fun hg => ⟨⟨hfiles, hself⟩, hg.1.1.2.2⟩,
                  fun hg => ⟨⟨⟨hopen, hfiles, hg.2⟩, trivial⟩, hchmod⟩⟩
              · simp [or_comm]
              · rw [List.forall_mem_cons, hclean]
                exact hret.trans (and_iff_right ⟨hfiles, hself⟩).symm

omit [DecidableEq ν] in
/-- The result for a subdirectory counts if there is none behind it. -/
theorem Looped.after {name : String} {sub rest : Entries} {subPath : Str}
    (hsub : subPath = includeTrailingPathDelimiter path ++ name.toList)
    (hself : excludeTrailingPathDelimiter subPath = subPath) {ret : Bool} {r : Bool × Files ν}
    {o : Option Bool × Files ν} (hdir : Changed h mode subPath sub s r)
    (hrest : Looped h mode path rest r.1 r.2 o) : Looped h mode path (.dir name sub rest) ret s o := by
  subst hsub
  refine ⟨(hdir.effect.trans hrest.effect).congr ?_ fun _ c _ => ?_, hrest.stopped, fun b hb => ?_⟩
  · rw [and_left_comm]
    refine and_congr_right fun _ => ?_
    rw [List.forall_mem_cons, and_assoc, ← List.forall_mem_append, ← List.forall_mem_cons]
    rfl
  · rw [hself]
    rfl
  · rw [if_neg (by rw [Entries.dirs]; omega), hrest.ret b hb, Entries.chain]
    by_cases hdirs : rest.dirs = 0
    · rw [if_pos hdirs, if_pos hdirs]
      exact hdir.result
    · rw [if_neg hdirs, if_neg hdirs]

/-- **The loop**, by induction on the entries. -/
theorem changeLoop_looped (hnamed : es.Named) (path : Str) (ret : Bool) (s : Files ν) :
    Looped h mode path es ret s (changeLoop h mode path es ret s) := by
  induction es generalizing path ret s with
  | nil =>
      refine ⟨⟨⟨[], rfl, ?_⟩, fun _ n => ?_⟩, ?_, ?_⟩
      · simp [Entries.filePaths, Entries.subDirs]
      · simp [Entries.subPaths, changeLoop]
      · simp [Entries.filePaths, changeLoop]
      · rintro b hb
        obtain rfl := Option.some.inj hb
        exact Iff.rfl
  | dots rest ih =>
      have hrest := ih hnamed path ret s
      exact ⟨hrest.effect, hrest.stopped, hrest.ret⟩
  | file name rest ih =>
      have hfiles : (∀ c ∈ (Entries.file name rest).filePaths path, h.Changeable c) ↔
          h.Changeable (includeTrailingPathDelimiter path ++ name.toList) ∧
            ∀ c ∈ rest.filePaths path, h.Changeable c := List.forall_mem_cons
      rw [changeLoop]
      cases hfound : h.access (includeTrailingPathDelimiter path ++ name.toList) with
      | false =>
          rw [and_iff_right (h.changeable_of_not_found hfound)] at hfiles
          have hrest := ih hnamed.2 path ret s
          refine ⟨hrest.effect.congr (and_congr_left fun _ => hfiles.symm) fun _ c hc => ?_,
            hrest.stopped.trans (not_congr hfiles.symm), hrest.ret⟩
          exact (h.mem_cons_of_found hfound hc).symm
      | true =>
          have hchange := Effect.changeMode mode hfound s
          have hfst : (changeMode h mode (includeTrailingPathDelimiter path ++ name.toList) s).1 =
              h.chmod (includeTrailingPathDelimiter path ++ name.toList) := rfl
          rw [if_pos rfl]
          dsimp only
          rw [hfst]
          cases hchmod : h.chmod (includeTrailingPathDelimiter path ++ name.toList) with
          | false =>
              -- the loop ends here
              have hfail : ¬ ∀ c ∈ (Entries.file name rest).filePaths path, h.Changeable c :=
                fun hall => h.not_changeable hfound hchmod (hfiles.1 hall).1
              refine ⟨(hchange.trans (Effect.closedir h mode path _)).congr
                (iff_of_false (fun hg => ?_) fun hg => hfail hg.1) fun hg => absurd hg.1 hfail,
                iff_of_true rfl hfail, fun b hb => by cases hb⟩
              rw [hchmod] at hg
              exact Bool.false_ne_true hg.1
          | true =>
              have hself : h.Changeable (includeTrailingPathDelimiter path ++ name.toList) :=
                fun _ => hchmod
              rw [and_iff_right hself] at hfiles
              have hrest := ih hnamed.2 path ret
                (changeMode h mode (includeTrailingPathDelimiter path ++ name.toList) s).2
              refine ⟨(hchange.trans hrest.effect).congr ?_ fun _ c _ => Iff.rfl,
                hrest.stopped.trans (not_congr hfiles.symm), hrest.ret⟩
              rw [hfiles]
              exact and_iff_right hchmod
  | dir name sub rest ihsub ih =>
      obtain ⟨hname, hsub, hrest⟩ := hnamed
      have hself := (trailing_name hname (includeTrailingPathDelimiter path)).1
      refine Looped.after rfl hself ?_ (ih hrest path _ _)
      cases hopen : h.opendir (includeTrailingPathDelimiter path ++ name.toList) with
      | false => exact Changed.of_closed hopen
      | true => exact Changed.of_looped hopen (ihsub hsub _ true _)

/-- **The function.** -/
theorem changeModeDirectory_changed (hnamed : es.Named) (path : Str) (s : Files ν) :
    Changed h mode path es s (changeModeDirectory h mode path es s) := by
  rw [changeModeDirectory]
  cases hopen : h.opendir path with
  | false => exact Changed.of_closed hopen
  | true => exact Changed.of_looped hopen (changeLoop_looped hnamed path true _)

/-- `ChangeModeFile` succeeds if the file is found and can be changed, and then it has the mode;
otherwise nothing is changed. -/
theorem changeModeFile_spec (fileName : Str) (s : Files ν) :
    let r := changeModeFile h mode fileName s
    (r.1 = true ↔ h.access fileName = true ∧ h.chmod fileName = true) ∧
      (r.1 = true → r.2.mode (h.node fileName) = mode) ∧ (r.1 = false → r.2.mode = s.mode) := by
  rw [changeModeFile]
  cases hfound : h.access fileName with
  | false => simp
  | true =>
      cases hchmod : h.chmod fileName with
      | false => simp [changeMode, hchmod]
      | true => simp [changeMode, hchmod]

/-! ## What the result tells -/

/-- The entries of a directory, whose names are names. -/
structure Folder where
  entries : Entries
  named : entries.Named

/-- The result is true exactly if every call has succeeded, and then everything that is found has the
mode. -/
structure Reports (h : Host ν) (mode : Mode) (path : Str) (dir : Folder) (start : ν → Mode) :
    Prop where
  result :
    let r := changeModeDirectory h mode path dir.entries { mode := start }
    r.1 = true ↔ ∀ e ∈ r.2.log, e.ok = true
  modes :
    let r := changeModeDirectory h mode path dir.entries { mode := start }
    r.1 = true → (∀ c ∈ dir.entries.subPaths path, h.access c = true → r.2.mode (h.node c) = mode) ∧
      r.2.mode (h.node path) = mode

/-- The directory is found without its trailing slash, or it has the mode already, or something in it
leads back to it. -/
def SelfFound (h : Host ν) (mode : Mode) (path : Str) (dir : Folder) (start : ν → Mode) : Prop :=
  h.access (excludeTrailingPathDelimiter path) = true ∨ start (h.node path) = mode ∨
    ∃ c ∈ dir.entries.subPaths path, h.access c = true ∧ h.node c = h.node path

omit [DecidableEq ν] in
theorem node_excludeTrailing (hfound : h.access (excludeTrailingPathDelimiter path) = true) :
    h.node (excludeTrailingPathDelimiter path) = h.node path := by
  rcases List.eq_nil_or_concat path with rfl | ⟨init, c, rfl⟩
  · rfl
  · rw [List.concat_eq_append, excludeTrailing_concat] at hfound ⊢
    by_cases hc : c = '/'
    · rw [if_pos hc] at hfound ⊢
      rw [hc, h.node_slash]
      rintro rfl
      rw [h.access_nil] at hfound
      cases hfound
    · rw [if_neg hc]

theorem chain_subset (es : Entries) (path : Str) : es.chain path ⊆ es.subDirs path := by
  induction es generalizing path with
  | nil => exact List.Subset.refl _
  | dots rest ih => exact ih path
  | file name rest ih => exact ih path
  | dir name sub rest ihsub ih =>
      rw [Entries.chain, Entries.subDirs]
      split
      · exact List.cons_subset_cons _ (List.Subset.trans (ihsub _) (List.subset_append_left ..))
      · exact List.subset_cons_of_subset _
          (List.Subset.trans (ih path) (List.subset_append_right ..))

/-- **When the result can be trusted**: if nothing fails on the chain, nothing fails anywhere, and the
directory itself is found. -/
theorem changeModeDirectory_reports_iff (h : Host ν) (mode : Mode) (path : Str) (dir : Folder)
    (start : ν → Mode) : Reports h mode path dir start ↔
      ((∀ d ∈ (path, dir.entries) :: dir.entries.chain path, h.Clean d) →
        (∀ d ∈ (path, dir.entries) :: dir.entries.subDirs path, h.Clean d) ∧
          SelfFound h mode path dir start) := by
  have hchanged : Changed h mode path dir.entries { mode := start } _ :=
    changeModeDirectory_changed dir.named path _
  obtain ⟨new, hlog, hok⟩ := hchanged.effect.log
  rw [List.append_nil] at hlog
  rw [← hlog] at hok
  have hself : (∀ d ∈ (path, dir.entries) :: dir.entries.subDirs path, h.Clean d) →
      ((changeModeDirectory h mode path dir.entries { mode := start }).2.mode (h.node path) = mode ↔
        SelfFound h mode path dir start) := by
    intro hall
    rw [hchanged.effect.modes hall, List.exists_mem_cons_iff,
      and_iff_left_of_imp node_excludeTrailing]
    exact or_left_comm
  have hsub : (∀ d ∈ (path, dir.entries) :: dir.entries.subDirs path, h.Clean d) →
      ∀ d ∈ (path, dir.entries) :: dir.entries.chain path, h.Clean d :=
    fun hall d hd => hall d (List.cons_subset_cons _ (chain_subset _ _) hd)
  constructor
  · intro hreports hchain
    have htrue := hchanged.result.2 hchain
    have hall := hok.1 (hreports.result.1 htrue)
    exact ⟨hall, (hself hall).1 (hreports.modes htrue).2⟩
  · intro hcond
    refine ⟨hchanged.result.trans ⟨fun hchain => hok.2 (hcond hchain).1,
      fun hlog => hsub (hok.1 hlog)⟩, fun htrue => ?_⟩
    obtain ⟨hall, hfound⟩ := hcond (hchanged.result.1 htrue)
    refine ⟨fun c hc haccess => ?_, (hself hall).2 hfound⟩
    rw [hchanged.effect.modes hall]
    exact Or.inr ⟨c, List.mem_cons_of_mem _ hc, haccess, rfl⟩

/-- A host on which one directory cannot be opened. -/
def shutHost (shut : Str) : Host Str where
  opendir path := path != shut
  access path := path != []
  chmod _ := true
  node path := path.reverse.dropWhile (· == '/')
  access_nil := rfl
  node_slash path _ := by
    rw [List.reverse_append]
    rfl

/-- The first of two subdirectories cannot be opened, and the second hides that; the root of the file
system is left as it is. -/
theorem failure_hidden :
    ¬ Reports (shutHost ['r', '/', 'a']) 0o755 ['r']
        ⟨.dir "a" .nil (.dir "b" .nil .nil), by decide, trivial, by decide, trivial, trivial⟩
        (fun _ => 0) ∧
      ¬ Reports (shutHost []) 0o755 ['/'] ⟨.nil, trivial⟩ (fun _ => 0) := by
  constructor
  · intro hreports
    have hall := hreports.result.1 (by decide +kernel)
    have hmem : Event.opendir ['r', '/', 'a'] false ∈ (changeModeDirectory (shutHost ['r', '/', 'a'])
        0o755 ['r'] (.dir "a" .nil (.dir "b" .nil .nil)) { mode := fun _ => 0 }).2.log := by
      decide +kernel
    exact absurd (hall _ hmem) (by decide)
  · intro hreports
    exact absurd (hreports.modes (by decide +kernel)).2 (by decide +kernel)

end CUtils.Directory
