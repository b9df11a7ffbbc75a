import CUtils.MappedFile.Effects
import CUtils.Lib.StateRun

/-!
# Files

`Rooted` ties an object to the files: its descriptor is that of the file at `path_`, it has one
while it is mapped, and if its parameters are normalized and there is no file, it knows that it has
to make one. Every operation keeps this.

`Harmless` is what an operation may do to the files. The one thing that stands against it is that
`isNewFile_` is set by `Normalize` for the path of that time and looked at by a later `OpenFile`,
which truncates the file it opens, or unlinks it, if the flag is still set. `Op.Timely` says that it
is not set for a file that is there.
-/

namespace CUtils.MappedFiles

open StateRun

variable {Path : Type} {page : Int}

structure Rooted (s : State Path) : Prop where
  fresh : ∀ path inode, s.files.inode path = some inode → inode < s.files.next
  fd : ∀ fd, s.obj.fd = some fd → s.files.inode s.obj.path = some fd.inode
  mapped : s.obj.isMapped = true → s.obj.fd ≠ none
  flag : s.obj.isNormed = true → s.obj.fd = none → s.obj.openFlag.create =
    decide (s.obj.mode &&& MapMode.createIfAbsent ≠ MapMode.default)
  absent : s.obj.isNormed = true → s.files.inode s.obj.path = none → s.obj.isNewFile = true

/-- An operation that does not touch the directory or the descriptor. -/
theorem Rooted.of_same {s s' : State Path} (h : Rooted s)
    (hinode : s'.files.inode = s.files.inode) (hnext : s'.files.next = s.files.next)
    (hpath : s'.obj.path = s.obj.path) (hfd : s'.obj.fd = s.obj.fd)
    (hmapped : s'.obj.isMapped = true → s.obj.fd ≠ none)
    (hnormed : s'.obj.isNormed = true →
      (s'.obj.fd = none → s'.obj.openFlag.create =
        decide (s'.obj.mode &&& MapMode.createIfAbsent ≠ MapMode.default)) ∧
      (s.files.inode s.obj.path = none → s'.obj.isNewFile = true)) : Rooted s' where
  fresh := by rw [hinode, hnext]; exact h.fresh
  fd := by rw [hinode, hpath, hfd]; exact h.fd
  mapped := by rw [hfd]; exact hmapped
  flag hn := (hnormed hn).1
  absent hn := by rw [hinode, hpath]; exact (hnormed hn).2

/-- Nothing is known of an object that has been given new parameters. -/
theorem Rooted.of_obj {s s' : State Path} (h : Rooted s) (hfiles : s'.files = s.files)
    (hfd : s'.obj.fd = none ∨ s'.obj.fd = s.obj.fd ∧ s'.obj.path = s.obj.path)
    (hmapped : s'.obj.isMapped = false) (hnormed : s'.obj.isNormed = false) : Rooted s' where
  fresh := by rw [hfiles]; exact h.fresh
  fd fd hs := by
    rcases hfd with hnone | ⟨hfd, hpath⟩
    · rw [hnone] at hs
      exact absurd hs (by simp)
    · rw [hfiles, hpath]
      exact h.fd fd (hfd ▸ hs)
  mapped hm := absurd (hmapped.symm.trans hm) (by simp)
  flag hn := absurd (hnormed.symm.trans hn) (by simp)
  absent hn := absurd (hnormed.symm.trans hn) (by simp)

/-- The facts `of_same` asks for, of an object whose parameters have not changed. -/
theorem Rooted.normed {s : State Path} (h : Rooted s) (hn : s.obj.isNormed = true) :
    (s.obj.fd = none → s.obj.openFlag.create =
        decide (s.obj.mode &&& MapMode.createIfAbsent ≠ MapMode.default)) ∧
      (s.files.inode s.obj.path = none → s.obj.isNewFile = true) :=
  ⟨h.flag hn, h.absent hn⟩

theorem Rooted.normalize (hpage : 0 < page) {s : State Path} (h : Rooted s) :
    Rooted (s.normalize page).2 := by
  rcases State.normalize_cases hpage s with ⟨-, hrun⟩ | ⟨-, -, hp, hn, -⟩ |
    ⟨-, -, hfit, -, -, -, hflag⟩
  · rw [hrun]
    exact h
  · refine h.of_same (by rw [hp.files]) (by rw [hp.files]) hp.path hp.fd
      (fun hm => h.mapped (hp.isMapped ▸ hm)) fun hn' => ?_
    exact absurd (hn.symm.trans hn') (by simp)
  · refine h.of_same (by rw [hfit.files]) (by rw [hfit.files]) hfit.path hfit.fd
      (fun hm => h.mapped (hfit.isMapped ▸ hm)) fun _ => ⟨fun _ => hflag, fun habsent => ?_⟩
    rcases hfit.fits with ⟨-, hnew, -⟩ | ⟨-, inode, hinode, -⟩
    · exact hnew
    · rw [habsent] at hinode
      exact absurd hinode (by simp)

theorem Rooted.unmap {s : State Path} (h : Rooted s) : Rooted (s.unmap page).2 := by
  obtain ⟨hfiles, ⟨-, hrun⟩ | ⟨-, -, hobj, -⟩ | ⟨-, -, hobj, -⟩⟩ := State.unmap_cases page s
  · rw [hrun]
    exact h
  · refine h.of_same (by rw [hfiles]) (by rw [hfiles]) ?_ ?_ ?_ ?_
    all_goals rw [hobj]
    · exact h.mapped
    · exact h.normed
  · refine h.of_same (by rw [hfiles]) (by rw [hfiles]) ?_ ?_ ?_ ?_
    all_goals rw [hobj]
    · exact fun hm => absurd hm (by simp)
    · exact h.normed

theorem Rooted.tryMap {s : State Path} (h : Rooted s) : Rooted (s.tryMap page).2 := by
  obtain ⟨⟨hint, hobj⟩, hfiles, -⟩ := State.tryMap_cases page s
  refine h.of_same (by rw [hfiles]) (by rw [hfiles]) ?_ ?_ ?_ ?_
  all_goals rw [hobj]
  · exact h.mapped
  · exact h.normed

theorem Rooted.setRegion {s : State Path} (h : Rooted s) (hfd : s.obj.fd ≠ none) (address : Int) :
    Rooted (s.setRegion page address) :=
  h.of_same rfl rfl rfl rfl (fun _ => hfd) h.normed

theorem normalize_isNormed (hpage : 0 < page) {s : State Path}
    (h : (s.normalize page).1 ≠ .invalidValue) : (s.normalize page).2.obj.isNormed = true := by
  rcases State.normalize_cases hpage s with ⟨hn, hrun⟩ | ⟨-, hval, -⟩ | ⟨-, -, -, hn, -⟩
  · rw [hrun]
    exact hn
  · exact absurd hval h
  · exact hn

theorem normalize_isMapped (hpage : 0 < page) (s : State Path) :
    (s.normalize page).2.obj.isMapped = s.obj.isMapped := by
  rcases State.normalize_cases hpage s with ⟨-, hrun⟩ | ⟨-, -, hp, -⟩ | ⟨-, -, hp, -⟩
  · rw [hrun]
  · exact hp.isMapped
  · exact hp.isMapped

variable [DecidableEq Path]

theorem Rooted.opened {s : State Path} (h : Rooted s) (hnormed : s.obj.isNormed = true)
    (hm : s.obj.isMapped = false) :
    Rooted s.opened.2 ∧ (s.opened.1 = true → s.opened.2.obj.fd ≠ none) := by
  unfold State.opened
  by_cases hfd : s.obj.fd = none
  · rw [if_pos hfd]
    rcases State.openFile_cases s with ⟨hfail, hup⟩ | ⟨hok, fd, hop⟩
    · refine ⟨?_, fun hok => absurd (hfail.symm.trans hok) (by simp)⟩
      rcases hup.files with hfiles | ⟨hnew, hinode, -, hnext⟩
      · refine h.of_same (by rw [hfiles]) (by rw [hfiles]) ?_ ?_ ?_ ?_
        all_goals rw [hup.obj]
        · exact h.mapped
        · exact h.normed
      · refine ⟨fun path inode hp => ?_, fun fd hs => ?_, fun hm' => ?_, fun _ _ => ?_, fun _ _ => ?_⟩
        · rw [hinode] at hp
          by_cases hpath : path = s.obj.path
          · rw [hpath, Function.update_self] at hp
            exact absurd hp (by simp)
          · rw [Function.update_of_ne hpath] at hp
            exact (h.fresh path inode hp).trans_le hnext
        · rw [hup.obj, hfd] at hs
          exact absurd hs (by simp)
        · rw [hup.obj, hm] at hm'
          exact absurd hm' (by simp)
        · rw [hup.obj]
          exact h.flag hnormed hfd
        · rw [hup.obj]
          exact hnew
    · refine ⟨⟨fun path inode hp => ?_, fun fd' hs => ?_, fun hm' => ?_, fun _ hnone => ?_,
        fun _ hnone => ?_⟩, fun _ => by rw [hop.obj]; simp⟩
      · rw [hop.inode] at hp
        by_cases hpath : path = s.obj.path
        · rw [hpath, Function.update_self] at hp
          obtain rfl := Option.some.inj hp
          rcases hop.found with hold | ⟨-, -, hnew, hlt⟩
          · exact (h.fresh _ _ hold).trans_le hop.next
          · omega
        · rw [Function.update_of_ne hpath] at hp
          exact (h.fresh path inode hp).trans_le hop.next
      · rw [hop.obj] at hs ⊢
        obtain rfl := Option.some.inj hs
        rw [hop.inode, Function.update_self]
      · rw [hop.obj] at hm'
        exact absurd (hm.symm.trans hm') (by simp)
      · rw [hop.obj] at hnone
        exact absurd hnone (by simp)
      · rw [hop.obj, hop.inode] at hnone
        rw [Function.update_self] at hnone
        exact absurd hnone (by simp)
  · rw [if_neg hfd]
    exact ⟨h, fun _ => hfd⟩

theorem Rooted.map (hpage : 0 < page) {s : State Path} (h : Rooted s) : Rooted (s.map page).2 := by
  rcases State.map_cases hpage s with ⟨-, hrun⟩ | ⟨-, -, hrun⟩ | ⟨hm, hgood, hrest⟩
  · rw [hrun]
    exact h
  · rw [hrun]
    exact h.normalize hpage
  · have hm' := (normalize_isMapped hpage s).trans hm
    obtain ⟨hopened, hfd⟩ := (h.normalize hpage).opened (normalize_isNormed hpage hgood) hm'
    rcases hrest with ⟨-, hrun⟩ | ⟨hok, ⟨-, hrun⟩ | ⟨address, -, hrun⟩⟩
    · rw [hrun]
      exact hopened
    · rw [hrun]
      exact hopened.tryMap
    · rw [hrun]
      obtain ⟨⟨hint, hobj⟩, -⟩ := State.tryMap_cases page (s.normalize page).2.opened.2
      refine hopened.tryMap.setRegion ?_ address
      rw [hobj]
      exact hfd hok

omit [DecidableEq Path] in
theorem Rooted.of_eq {s s' : State Path} (h : Rooted s) (hobj : s'.obj = s.obj)
    (hinode : s'.files.inode = s.files.inode) (hnext : s'.files.next = s.files.next) : Rooted s' := by
  refine h.of_same hinode hnext ?_ ?_ ?_ ?_
  all_goals rw [hobj]
  · exact h.mapped
  · exact h.normed

omit [DecidableEq Path] in
theorem Rooted.resize (hpage : 0 < page) {s : State Path} (h : Rooted s) (newSize : Int)
    (sync : Bool) : Rooted (s.resize page newSize sync).2 := by
  rcases State.resize_cases hpage s newSize sync with ⟨hobj, -, hfiles⟩ |
    ⟨hm, -, size, -, hset, hcases⟩
  · exact h.of_eq hobj (by rw [hfiles]) (by rw [hfiles])
  · have hdir : (s.resize page newSize sync).2.files.inode = s.files.inode ∧
        (s.resize page newSize sync).2.files.next = s.files.next := by
      rcases hset with ⟨heq, -⟩ | ⟨heq, -⟩ | ⟨inode, fd, -, -, -, heq⟩
      all_goals rw [heq]; exact ⟨rfl, rfl⟩
    rcases hcases with ⟨hobj, -⟩ | ⟨place, hobj, -⟩
    · exact h.of_eq hobj hdir.1 hdir.2
    · refine h.of_same hdir.1 hdir.2 ?_ ?_ ?_ ?_
      all_goals rw [hobj]
      · exact fun _ => h.mapped hm
      · exact h.normed

omit [DecidableEq Path] in
theorem Rooted.stable : State.Stable page fun s : State Path => Rooted s where
  same h hobj _ hfiles := h.of_eq hobj (by rw [hfiles]) (by rw [hfiles])
  params h _ hp := h.of_obj hp.files hp.fd hp.isMapped hp.isNormed
  unmap h := h.unmap
  gone h hg := h.of_obj hg.files (Or.inl hg.fd) hg.isMapped hg.isNormed

/-- An object that has its file open does not look for it when it is mapped. -/
theorem map_files (hpage : 0 < page) {s : State Path} (hfd : s.obj.fd ≠ none) :
    (s.map page).2.files = s.files ∧ (s.map page).2.obj.path = s.obj.path ∧
      (s.map page).2.obj.fd = s.obj.fd := by
  have hn : (s.normalize page).2.files = s.files ∧ (s.normalize page).2.obj.path = s.obj.path ∧
      (s.normalize page).2.obj.fd = s.obj.fd := by
    rcases State.normalize_cases hpage s with ⟨-, hrun⟩ | ⟨-, -, hp, -⟩ | ⟨-, -, hp, -⟩
    · rw [hrun]
      exact ⟨rfl, rfl, rfl⟩
    · exact ⟨hp.files, hp.path, hp.fd⟩
    · exact ⟨hp.files, hp.path, hp.fd⟩
  have hopened : (s.normalize page).2.opened = (true, (s.normalize page).2) := by
    rw [State.opened, if_neg (by rw [hn.2.2]; exact hfd)]
  have ht := State.tryMap_cases page (s.normalize page).2
  rcases State.map_cases hpage s with ⟨-, hrun⟩ | ⟨-, -, hrun⟩ | ⟨-, -, hrest⟩
  · rw [hrun]
    exact ⟨rfl, rfl, rfl⟩
  · rw [hrun]
    exact hn
  · rw [hopened] at hrest
    obtain ⟨⟨hint, hobj⟩, hfiles, -⟩ := ht
    have hpath : ((s.normalize page).2.tryMap page).2.obj.path = s.obj.path := by
      rw [hobj]
      exact hn.2.1
    have hfd' : ((s.normalize page).2.tryMap page).2.obj.fd = s.obj.fd := by
      rw [hobj]
      exact hn.2.2
    rcases hrest with ⟨hno, -⟩ | ⟨-, ⟨-, hrun⟩ | ⟨address, -, hrun⟩⟩
    · exact absurd hno (by simp)
    · rw [hrun]
      exact ⟨hfiles.trans hn.1, hpath, hfd'⟩
    · rw [hrun]
      exact ⟨hfiles.trans hn.1, hpath, hfd'⟩

theorem map_failed (hpage : 0 < page) {s : State Path} (hm : s.obj.isMapped = false)
    (hfail : (s.map page).1 ≠ .ok) :
    (s.map page).2.obj.isMapped = false ∧ (s.map page).2.memory = s.memory := by
  have hn : (s.normalize page).2.obj.isMapped = false ∧ (s.normalize page).2.memory = s.memory := by
    rcases State.normalize_cases hpage s with ⟨-, hrun⟩ | ⟨-, -, hp, -⟩ | ⟨-, -, hp, -⟩
    · rw [hrun]
      exact ⟨hm, rfl⟩
    · exact ⟨hp.isMapped.trans hm, hp.memory⟩
    · exact ⟨hp.isMapped.trans hm, hp.memory⟩
  have ho : (s.normalize page).2.opened.2.obj.isMapped = false ∧
      (s.normalize page).2.opened.2.memory = s.memory := by
    unfold State.opened
    split
    · rcases State.openFile_cases (s.normalize page).2 with ⟨-, hup⟩ | ⟨-, fd, hop⟩
      · rw [hup.obj, hup.memory]
        exact hn
      · rw [hop.obj, hop.memory]
        exact hn
    · exact hn
  rcases State.map_cases hpage s with ⟨hm', -⟩ | ⟨-, -, hrun⟩ | ⟨-, -, hrest⟩
  · exact absurd (hm.symm.trans hm') (by simp)
  · rw [hrun]
    exact hn
  · rcases hrest with ⟨-, hrun⟩ | ⟨-, ⟨hnone, hrun⟩ | ⟨address, -, hrun⟩⟩
    · rw [hrun]
      exact ho
    · rw [hrun]
      obtain ⟨⟨hint, hobj⟩, -, ⟨-, hmemory⟩ | ⟨place, hsome, -⟩⟩ :=
        State.tryMap_cases page (s.normalize page).2.opened.2
      · rw [hobj, hmemory]
        exact ho
      · rw [hnone] at hsome
        exact absurd hsome (by simp)
    · rw [hrun] at hfail
      exact absurd rfl hfail

theorem turnNext_files (hpage : 0 < page) {s : State Path} (h : Rooted s) :
    (s.turnNext page).2.files = s.files := by
  rcases State.turnNext_cases page s with ⟨-, -, hfiles⟩ | ⟨hn, inode, -, -, -, hcases⟩
  · exact hfiles
  · rcases hcases with ⟨-, -, hfiles, -⟩ | ⟨-, -, -, -, hfiles⟩ |
      ⟨hm, -, q, hqobj, hqmem, hqfiles, hrun⟩
    · exact hfiles
    · exact hfiles
    · rw [hrun]
      rcases State.turnRegion_cases q (s.files.size inode) (by rw [hqobj]; exact hm)
        (by rw [hqobj]; exact hn) with ⟨-, -, hfiles⟩ | ⟨u, huobj, -, hufiles, hmap⟩
      · exact hfiles.trans hqfiles
      · have hufd : u.obj.fd ≠ none := by
          rw [huobj]
          show q.obj.fd ≠ none
          rw [hqobj]
          exact h.mapped hm
        have hfiles := (map_files hpage hufd).1.trans (hufiles.trans hqfiles)
        rcases hmap with ⟨-, heq⟩ | ⟨-, heq⟩
        · rw [heq]
          exact hfiles
        · rw [heq]
          exact hfiles

theorem Rooted.turnNext (hpage : 0 < page) {s : State Path} (h : Rooted s) :
    Rooted (s.turnNext page).2 := by
  rcases State.turnNext_cases page s with ⟨hobj, -, hfiles⟩ | ⟨hn, inode, hinode, -, -, hcases⟩
  · exact h.of_eq hobj (by rw [hfiles]) (by rw [hfiles])
  · rcases hcases with ⟨hm, -, hfiles, hobj⟩ | ⟨hm, -, hobj, -, hfiles⟩ |
      ⟨hm, -, q, hqobj, hqmem, hqfiles, hrun⟩
    · refine h.of_obj hfiles (Or.inr ?_) ?_ ?_
      all_goals rw [hobj]
      · exact ⟨rfl, rfl⟩
      · exact hm
    · refine h.of_same (by rw [hfiles]) (by rw [hfiles]) ?_ ?_ ?_ ?_
      all_goals rw [hobj]
      · rfl
      · rfl
      · exact fun _ => h.mapped hm
      · exact h.normed
    · have hfd : s.obj.fd ≠ none := h.mapped hm
      have hq : Rooted q := h.of_eq hqobj (by rw [hqfiles]) (by rw [hqfiles])
      rw [hrun]
      rcases State.turnRegion_cases q (s.files.size inode) (by rw [hqobj]; exact hm)
        (by rw [hqobj]; exact hn) with ⟨hobj, -, hfiles⟩ | ⟨u, huobj, -, hufiles, hmap⟩
      · exact hq.of_eq hobj (by rw [hfiles]) (by rw [hfiles])
      · have hufd : u.obj.fd = s.obj.fd ∧ u.obj.path = s.obj.path := by
          rw [huobj]
          show q.obj.fd = s.obj.fd ∧ q.obj.path = s.obj.path
          rw [hqobj]
          exact ⟨rfl, rfl⟩
        have hu : Rooted u := by
          refine hq.of_obj hufiles (Or.inr ?_) ?_ ?_
          all_goals rw [huobj]
          · exact ⟨rfl, rfl⟩
          · rfl
        rcases hmap with ⟨-, heq⟩ | ⟨hfail, heq⟩
        · rw [heq]
          exact hu.map hpage
        · rw [heq]
          obtain ⟨hfiles, hpath, hfd'⟩ := map_files hpage (s := u) (by rw [hufd.1]; exact hfd)
          have hum := (map_failed hpage (s := u) (by rw [huobj]) hfail).1
          refine (hu.map hpage).of_same rfl rfl rfl rfl (fun hm' => ?_)
            fun _ => ⟨fun hno => ?_, fun hno => ?_⟩
          · exact absurd (hum.symm.trans hm') (by simp)
          · exact absurd ((hfd'.trans hufd.1).symm.trans hno) hfd
          · rw [hfiles, hpath, hufd.2, hufiles, hqfiles, hinode] at hno
            exact absurd hno (by simp)

omit [DecidableEq Path] in
theorem rooted_new (path : Path) {files : Files Path} (answers : Nat → Answer)
    (hfresh : ∀ path inode, files.inode path = some inode → inode < files.next) :
    Rooted (State.new path files answers) where
  fresh := hfresh
  fd fd hfd := absurd hfd (by simp [State.new])
  mapped hm := absurd hm (by simp [State.new])
  flag hn := absurd hn (by simp [State.new])
  absent hn := absurd hn (by simp [State.new])

theorem Rooted.step (hpage : 0 < page) {s : State Path} (h : Rooted s) (empty : Path)
    (op : Op Path) : Rooted (s.step page empty op) :=
  Rooted.stable.step h empty op (h.normalize hpage) (fun _ => h.map hpage)
    (fun newSize sync _ => h.resize hpage newSize sync) fun _ => h.turnNext hpage

/-! ## What may become of the files -/

structure Harmless (files : Files Path) (s' : State Path) : Prop where
  /-- A file that was there is there, and no smaller. -/
  kept : ∀ path inode, files.inode path = some inode →
    s'.files.inode path = some inode ∧ files.size inode ≤ s'.files.size inode
  /-- A new file is that of the object, which asked for it, and has the size asked for. -/
  made : ∀ path inode, files.inode path = none → s'.files.inode path = some inode →
    path = s'.obj.path ∧ s'.obj.mode &&& MapMode.createIfAbsent ≠ MapMode.default ∧
      (s'.files.size inode : Int) = s'.obj.endOffset + 1

omit [DecidableEq Path] in
theorem Harmless.of_eq {files : Files Path} {s' : State Path} (h : s'.files = files) :
    Harmless files s' where
  kept path inode hi := by rw [h]; exact ⟨hi, le_rfl⟩
  made path inode hnone hsome := by
    rw [h, hnone] at hsome
    exact absurd hsome (by simp)

omit [DecidableEq Path] in
/-- What of the object `Harmless` looks at. -/
theorem Harmless.congr {files : Files Path} {s s' : State Path} (h : Harmless files s)
    (hfiles : s'.files = s.files) (hpath : s'.obj.path = s.obj.path) (hmode : s'.obj.mode = s.obj.mode)
    (hend : s'.obj.endOffset = s.obj.endOffset) : Harmless files s' where
  kept := by rw [hfiles]; exact h.kept
  made := by rw [hfiles, hpath, hmode, hend]; exact h.made

/-- An object is not taken by surprise: when it has to open a file it takes for new, there is
none. -/
def Op.Timely (s : State Path) : Op Path → Prop
  | .map | .remap => s.obj.isMapped = false → s.obj.fd = none → s.obj.isNewFile = true →
      s.files.inode s.obj.path = none
  | _ => True

theorem opened_harmless {s : State Path} (h : Rooted s) (hnormed : s.obj.isNormed = true)
    (htimely : s.obj.fd = none → s.obj.isNewFile = true → s.files.inode s.obj.path = none) :
    Harmless s.files s.opened.2 := by
  unfold State.opened
  by_cases hfd : s.obj.fd = none
  · rw [if_pos hfd]
    rcases State.openFile_cases s with ⟨-, hup⟩ | ⟨-, fd, hop⟩
    · rcases hup.files with hfiles | ⟨hnew, hinode, hsize, -⟩
      · exact Harmless.of_eq hfiles
      · have hdir : s.openFile.2.files.inode = s.files.inode := by
          rw [hinode]
          exact Function.update_eq_self_iff.2 (htimely hfd hnew).symm
        refine ⟨fun path inode hi => ?_, fun path inode hnone hsome => ?_⟩
        · rw [hdir, hsize inode (h.fresh path inode hi)]
          exact ⟨hi, le_rfl⟩
        · rw [hdir, hnone] at hsome
          exact absurd hsome (by simp)
    · refine ⟨fun path inode hi => ?_, fun path inode hnone hsome => ?_⟩
      · rcases hop.found with hold | ⟨habsent, -, hnew, -⟩
        · -- the file was there, so it has not been taken for new
          have hkept : s.openFile.2.files = s.files := by
            rcases hop.sized with ⟨hnew, -⟩ | ⟨-, hkept⟩
            · rw [htimely hfd hnew] at hold
              exact absurd hold (by simp)
            · exact hkept hold
          rw [hkept]
          exact ⟨hi, le_rfl⟩
        · have hpath : path ≠ s.obj.path := by
            rintro rfl
            rw [habsent] at hi
            exact absurd hi (by simp)
          have hne : inode ≠ fd.inode := by
            have := h.fresh path inode hi
            omega
          rw [hop.inode, Function.update_of_ne hpath, hop.size inode hne]
          exact ⟨hi, le_rfl⟩
      · have hpath : path = s.obj.path := by
          by_contra hpath
          rw [hop.inode, Function.update_of_ne hpath, hnone] at hsome
          exact absurd hsome (by simp)
        subst hpath
        rw [hop.inode, Function.update_self] at hsome
        obtain rfl := Option.some.inj hsome
        rcases hop.found with hold | ⟨-, hcreate, -⟩
        · rw [hnone] at hold
          exact absurd hold (by simp)
        · have hmode := h.flag hnormed hfd
          rw [hcreate] at hmode
          rcases hop.sized with ⟨-, -, hsize⟩ | ⟨hold, -⟩
          · rw [hop.obj]
            exact ⟨rfl, of_decide_eq_true hmode.symm, hsize⟩
          · exact absurd ((h.absent hnormed hnone).symm.trans hold) (by simp)
  · rw [if_neg hfd]
    exact Harmless.of_eq rfl

theorem map_harmless (hpage : 0 < page) {s : State Path} (h : Rooted s)
    (htimely : s.obj.isMapped = false → s.obj.fd = none → s.obj.isNewFile = true →
      s.files.inode s.obj.path = none) : Harmless s.files (s.map page).2 := by
  have hn := State.normalize_cases hpage s
  have hfiles : (s.normalize page).2.files = s.files := by
    rcases hn with ⟨-, hrun⟩ | ⟨-, -, hp, -⟩ | ⟨-, -, hp, -⟩
    · rw [hrun]
    · exact hp.files
    · exact hp.files
  rcases State.map_cases hpage s with ⟨-, hrun⟩ | ⟨-, -, hrun⟩ | ⟨hm, hgood, hrest⟩
  · rw [hrun]
    exact Harmless.of_eq rfl
  · rw [hrun]
    exact Harmless.of_eq hfiles
  · have htimely' : (s.normalize page).2.obj.fd = none →
        (s.normalize page).2.obj.isNewFile = true →
        (s.normalize page).2.files.inode (s.normalize page).2.obj.path = none := by
      rcases hn with ⟨-, hrun⟩ | ⟨-, hval, -⟩ | ⟨-, -, hfit, -⟩
      · rw [hrun]
        exact htimely hm
      · exact absurd hval hgood
      · rw [hfit.files, hfit.path, hfit.fd]
        intro hfd hnew
        rcases hfit.fits with ⟨habsent, -⟩ | ⟨hsame, -⟩
        · exact habsent
        · exact htimely hm hfd (hsame.symm.trans hnew)
    have hopened := opened_harmless (h.normalize hpage) (normalize_isNormed hpage hgood) htimely'
    rw [hfiles] at hopened
    obtain ⟨⟨hint, hobj⟩, htfiles, -⟩ :=
      State.tryMap_cases page (s.normalize page).2.opened.2
    have htried := hopened.congr htfiles (by rw [hobj]) (by rw [hobj]) (by rw [hobj]; rfl)
    rcases hrest with ⟨-, hrun⟩ | ⟨-, ⟨-, hrun⟩ | ⟨address, -, hrun⟩⟩
    · rw [hrun]
      exact hopened
    · rw [hrun]
      exact htried
    · rw [hrun]
      exact htried.congr rfl rfl rfl rfl

omit [DecidableEq Path] in
/-- `Resize` extends a file or leaves it alone. -/
theorem resize_harmless (hpage : 0 < page) {s : State Path} (h : Rooted s) (newSize : Int)
    (sync : Bool) : Harmless s.files (s.resize page newSize sync).2 := by
  rcases State.resize_cases hpage s newSize sync with ⟨-, -, hfiles⟩ |
    ⟨-, -, size, -, hset, -⟩
  · exact Harmless.of_eq hfiles
  · rcases hset with ⟨hfiles, -⟩ | ⟨hfiles, -⟩ | ⟨inode, fd, hinode, hfd, hlt, hfiles⟩
    · exact Harmless.of_eq hfiles
    · exact Harmless.of_eq hfiles
    · have heq : fd.inode = inode := Option.some.inj ((h.fd fd hfd).symm.trans hinode)
      refine ⟨fun path inode' hi => ?_, fun path inode' hnone hsome => ?_⟩
      · rw [hfiles]
        refine ⟨hi, ?_⟩
        show s.files.size inode' ≤ Function.update s.files.size fd.inode _ inode'
        by_cases hne : inode' = fd.inode
        · rw [hne, Function.update_self, heq]
          omega
        · rw [Function.update_of_ne hne]
      · rw [hfiles] at hsome
        exact absurd (hnone.symm.trans hsome) (by simp)

omit [DecidableEq Path] in
theorem files_stable (files : Files Path) :
    State.Stable page fun q : State Path => q.files = files where
  same hq _ _ hfiles := hfiles.trans hq
  params hq _ hp := hp.files.trans hq
  unmap hq := (State.unmap_cases page _).1.trans hq
  gone hq hg := hg.files.trans hq

/-- **What one call may do to the files.** -/
theorem step_harmless (hpage : 0 < page) {s : State Path} (h : Rooted s) (empty : Path) (op : Op Path)
    (htimely : op.Timely s) : Harmless s.files (s.step page empty op) := by
  by_cases hmap : op = .map ∨ op = .remap
  · have hmapped : s.obj.isMapped = false → s.obj.fd = none → s.obj.isNewFile = true →
        s.files.inode s.obj.path = none := by
      rcases hmap with rfl | rfl <;> exact htimely
    rcases hmap with rfl | rfl
    · exact map_harmless hpage h hmapped
    · rw [State.step, State.remap]
      split
      · exact Harmless.of_eq rfl
      · exact map_harmless hpage h hmapped
  · by_cases hresize : ∃ newSize sync, op = .resize newSize sync
    · obtain ⟨newSize, sync, rfl⟩ := hresize
      exact resize_harmless hpage h newSize sync
    · refine Harmless.of_eq ((files_stable s.files).step rfl empty op ?_ (fun hm => absurd hm hmap)
        (fun newSize sync heq => absurd ⟨newSize, sync, heq⟩ hresize) fun _ => ?_)
      · rcases State.normalize_cases hpage s with ⟨-, hrun⟩ | ⟨-, -, hp, -⟩ | ⟨-, -, hp, -⟩
        · rw [hrun]
        · exact hp.files
        · exact hp.files
      · exact turnNext_files hpage h

/-! ## Several objects -/

namespace World

/-- What an operation on some of the objects may do to the files. -/
structure Harmless (w w' : World Path) : Prop where
  kept : ∀ path inode, w.files.inode path = some inode →
    w'.files.inode path = some inode ∧ w.files.size inode ≤ w'.files.size inode
  made : ∀ path inode, w.files.inode path = none → w'.files.inode path = some inode →
    ∃ i, path = (w'.objs i).1.path ∧
      (w'.objs i).1.mode &&& MapMode.createIfAbsent ≠ MapMode.default ∧
      (w'.files.size inode : Int) = (w'.objs i).1.endOffset + 1

/-- An operation on some object is timely if it is for that object; moves open no files. -/
def Timely (w : World Path) : WorldOp Path → Prop
  | .call i op => op.Timely (w.state i)
  | .moveConstruct _ _ | .moveAssign _ _ => True

/-- Some files and no object that has been used. -/
def new (empty : Path) (files : Files Path) (answers : Nat → Answer) : World Path where
  objs _ := ({ path := empty }, ⟨fun _ => false, 0, []⟩)
  files := files
  answers := answers

def AllRooted (w : World Path) : Prop := ∀ i, Rooted (w.state i)

omit [DecidableEq Path] in
@[simp] theorem put_objs_self (w : World Path) (i : Nat) (s : State Path) :
    (w.put i s).objs i = (s.obj, s.memory) := Function.update_self _ _ _

omit [DecidableEq Path] in
theorem put_objs_of_ne (w : World Path) {i k : Nat} (s : State Path) (h : k ≠ i) :
    (w.put i s).objs k = w.objs k := Function.update_of_ne h _ _

omit [DecidableEq Path] in
/-- The other objects are as well rooted as before: no file of theirs has gone away. -/
theorem AllRooted.put {w : World Path} (h : w.AllRooted) {i : Nat} {s : State Path} (hs : Rooted s)
    (hkept : ∀ path inode, w.files.inode path = some inode → s.files.inode path = some inode) :
    (w.put i s).AllRooted := by
  intro k
  by_cases hk : k = i
  · subst hk
    refine hs.of_eq ?_ rfl rfl
    show ((w.put k s).objs k).1 = s.obj
    rw [put_objs_self]
  · have hobj : ((w.put i s).state k).obj = (w.state k).obj := by
      show ((w.put i s).objs k).1 = (w.objs k).1
      rw [put_objs_of_ne w s hk]
    refine ⟨hs.fresh, fun fd hfd => ?_, ?_, ?_, fun hn hnone => ?_⟩
    · rw [hobj] at hfd ⊢
      exact hkept _ _ ((h k).fd fd hfd)
    · rw [hobj]
      exact (h k).mapped
    · rw [hobj]
      exact (h k).flag
    · rw [hobj] at hn hnone ⊢
      refine (h k).absent hn ?_
      cases hold : (w.state k).files.inode (w.state k).obj.path with
      | none => rfl
      | some inode => exact absurd ((hkept _ _ hold).symm.trans hnone) (by simp)

omit [DecidableEq Path] in
theorem AllRooted.take {w : World Path} (h : w.AllRooted) (empty : Path) (i j : Nat) :
    (w.take empty i j).AllRooted := by
  intro k
  by_cases hi : k = i
  · subst hi
    have hobj : ((w.take empty k j).state k).obj = { path := empty } := by
      show (Function.update (Function.update w.objs j (w.objs k)) k _ k).1 = _
      rw [Function.update_self]
    refine (h k).of_obj rfl (Or.inl ?_) ?_ ?_
    all_goals rw [hobj]
  · by_cases hj : k = j
    · subst hj
      refine (h i).of_eq ?_ rfl rfl
      show (Function.update (Function.update w.objs k (w.objs i)) i _ k).1 = (w.objs i).1
      rw [Function.update_of_ne hi, Function.update_self]
    · refine (h k).of_eq ?_ rfl rfl
      show (Function.update (Function.update w.objs j (w.objs i)) i _ k).1 = (w.objs k).1
      rw [Function.update_of_ne hi, Function.update_of_ne hj]

omit [DecidableEq Path] in
theorem Harmless.of_eq {w w' : World Path} (h : w'.files = w.files) : w.Harmless w' where
  kept path inode hi := by rw [h]; exact ⟨hi, le_rfl⟩
  made path inode hnone hsome := by
    rw [h, hnone] at hsome
    exact absurd hsome (by simp)

omit [DecidableEq Path] in
theorem Harmless.put {w : World Path} {i : Nat} {s : State Path}
    (h : MappedFiles.Harmless w.files s) : w.Harmless (w.put i s) where
  kept := h.kept
  made path inode hnone hsome := by
    refine ⟨i, ?_⟩
    rw [put_objs_self]
    exact h.made path inode hnone hsome

/-- The two moves leave the files alone. -/
theorem step_move_files (page : Int) (empty : Path) (w : World Path) {op : WorldOp Path}
    (h : ∀ i o, op ≠ .call i o) : (w.step page empty op).files = w.files := by
  cases op with
  | call i o => exact absurd rfl (h i o)
  | moveConstruct i j =>
      rw [step]
      split
      · rfl
      · exact (files_stable w.files).destroy (s := w.state j) rfl empty
  | moveAssign i j => exact (files_stable w.files).clear (s := w.state j) rfl empty true

theorem step_harmless (hpage : 0 < page) {w : World Path} (h : w.AllRooted) (empty : Path)
    {op : WorldOp Path} (htimely : w.Timely op) : w.Harmless (w.step page empty op) := by
  cases op with
  | call i o => exact Harmless.put (MappedFiles.step_harmless hpage (h i) empty o htimely)
  | moveConstruct i j => exact Harmless.of_eq (step_move_files page empty w (by simp))
  | moveAssign i j => exact Harmless.of_eq (step_move_files page empty w (by simp))

theorem AllRooted.step (hpage : 0 < page) {w : World Path} (h : w.AllRooted) (empty : Path)
    {op : WorldOp Path} (htimely : w.Timely op) : (w.step page empty op).AllRooted := by
  cases op with
  | call i o =>
      have hharmless := MappedFiles.step_harmless hpage (h i) empty o htimely
      exact h.put ((h i).step hpage empty o) fun path inode hi => (hharmless.kept path inode hi).1
  | moveConstruct i j =>
      rw [World.step]
      split
      · exact h
      · refine (h.put (Rooted.stable.destroy (h j) empty) fun path inode hi => ?_).take empty i j
        have hfiles : ((w.state j).destroy page empty).files = w.files :=
          (files_stable w.files).destroy (s := w.state j) rfl empty
        rw [hfiles]
        exact hi
  | moveAssign i j =>
      refine (h.put (Rooted.stable.clear (h j) empty true) fun path inode hi => ?_).take empty i j
      have hfiles : ((w.state j).clear page empty true).2.files = w.files :=
        (files_stable w.files).clear (s := w.state j) rfl empty true
      rw [hfiles]
      exact hi

omit [DecidableEq Path] in
theorem allRooted_new (empty : Path) {files : Files Path} (answers : Nat → Answer)
    (hfresh : ∀ path inode, files.inode path = some inode → inode < files.next) :
    (new empty files answers).AllRooted :=fun _ => rooted_new empty answers hfresh

/-- **No file is damaged** in a run in which no object takes a file that is there for a new one. -/
theorem files_unharmed (hpage : 0 < page) (empty : Path) {files : Files Path}
    (hfresh : ∀ path inode, files.inode path = some inode → inode < files.next)
    (answers : Nat → Answer) {ops : List (WorldOp Path)}
    (htimely : Along Timely (step page empty) (new empty files answers) ops) :
    Along (fun w op => w.Harmless (w.step page empty op)) (step page empty)
      (new empty files answers) ops := by
  have hrooted := allRooted_new empty answers hfresh
  generalize new empty files answers = w at htimely hrooted
  induction ops generalizing w with
  | nil => trivial
  | cons op ops ih =>
      exact ⟨step_harmless hpage hrooted empty htimely.1,
        ih _ htimely.2 (hrooted.step hpage empty htimely.1)⟩

/-- Two paths, with a file of two pages at the second one, and a system that grants all. -/
def twoPaths : Files Bool where
  inode path := if path then some 0 else none
  size _ := 8192
  next := 1

def granted (n : Nat) : Answer := ⟨true, n⟩

theorem twoPaths_fresh (path : Bool) (inode : Nat) (h : twoPaths.inode path = some inode) :
    inode < twoPaths.next := by
  cases path with
  | false => exact absurd h (by simp [twoPaths])
  | true =>
      obtain rfl := Option.some.inj h
      exact Nat.zero_lt_one

/-- A new file is made and mapped, then the one that is there, and the object moved. -/
def changeOfPath : List (WorldOp Bool) :=
  [.call 0 (.construct false MapMode.createIfAbsent 0 10 0), .call 0 .map, .call 0 (.changePath true),
    .call 0 .map, .moveAssign 0 1]

theorem files_unharmed_two :
    Along (fun w op => w.Harmless (w.step 4096 false op)) (step 4096 false)
      (new false twoPaths granted) changeOfPath :=
  files_unharmed (by decide) false twoPaths_fresh granted
    ⟨trivial, fun _ _ h => absurd h (by decide), trivial, fun _ _ h => absurd h (by decide +kernel),
      trivial, trivial⟩

/-- **A flag that outlives its path.** `Normalize` finds no file and notes that it is to be made;
the object is then given the path of another one, and `Map` cuts that to ten bytes. -/
theorem surprised_file_cut :
    ¬ Along (fun w op => w.Harmless (w.step 4096 false op)) (step 4096 false)
      (new false twoPaths granted)
      [.call 0 (.construct false MapMode.createIfAbsent 0 10 0), .call 0 .normalize,
        .call 0 (.changePath true), .call 0 .map] := by
  rintro ⟨-, -, -, h, -⟩
  have hkept := (h.kept true 0 (by decide +kernel)).2
  revert hkept
  decide +kernel

end World

end CUtils.MappedFiles
