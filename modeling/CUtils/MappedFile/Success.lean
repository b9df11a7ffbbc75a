import CUtils.MappedFile.Region

/-!
# When a call succeeds

The case lemmas say what becomes of the object; here stands which answers and which parameters make
`Unmap`, `Normalize` and `Map` succeed, for an object that has its file open. A mapped object is such
an object, and the offset of normalized parameters is not negative (`Ready`), whatever other
processes do to the files.
-/

namespace CUtils.MappedFiles

open StateRun

variable {Path : Type} {page : Int}

namespace State

/-! ## Answers -/

theorem unmap_ok_iff {s : State Path} (hm : s.obj.isMapped = true) (hpos : 0 < s.obj.size)
    (haligned : page ∣ s.obj.rStart) :
    ((s.unmap page).1 = .ok ↔ (s.answers 0).ok = true) ∧
      (s.unmap page).2.answers = fun n => s.answers (n + 1) := by
  have hargs : 0 < s.obj.size ∧ s.obj.rStart.tmod page = 0 :=
    ⟨hpos, Int.tmod_eq_zero_of_dvd haligned⟩
  unfold unmap munmap
  rw [if_neg (by simp [hm])]
  cases hok : s.ask.1.ok with
  | false =>
      refine ⟨⟨fun h => absurd h (by simp), fun h => ?_⟩, rfl⟩
      exact absurd (hok.symm.trans h) (by simp)
  | true =>
      simp only [true_and, if_pos hargs]
      exact ⟨⟨fun _ => hok, fun _ => rfl⟩, rfl⟩

/-- The parameters that `mmap` takes, and a call of it that succeeds, at the first try or without
the hint. -/
def Mappable (page : Int) (s : State Path) : Prop :=
  page ∣ s.obj.offset ∧ ((s.answers 0).ok = true ∨ s.obj.hint ≠ 0 ∧ (s.answers 1).ok = true)

variable (page) in
theorem mmap_eq_none_iff {s : State Path} (hpos : 0 < s.obj.size) :
    (s.mmap page).1 = none ↔ ¬ (page ∣ s.obj.offset ∧ (s.answers 0).ok = true) := by
  have hdvd : s.obj.offset.tmod page = 0 ↔ page ∣ s.obj.offset :=
    ⟨dvd_of_tmod, Int.tmod_eq_zero_of_dvd⟩
  unfold mmap
  simp only
  by_cases h : s.ask.1.ok ∧ 0 < s.obj.size ∧ s.obj.offset.tmod page = 0
  · rw [if_pos h]
    exact ⟨fun hnone => absurd hnone (by simp), fun hn => absurd ⟨hdvd.1 h.2.2, h.1⟩ hn⟩
  · rw [if_neg h]
    exact ⟨fun _ hgood => h ⟨hgood.2, hpos, hdvd.2 hgood.1⟩, fun _ => rfl⟩

theorem mmap_answers (s : State Path) : (s.mmap page).2.answers = fun n => s.answers (n + 1) := by
  unfold mmap
  simp only
  split <;> rfl

variable (page) in
theorem tryMap_eq_none_iff {s : State Path} (hpos : 0 < s.obj.size) :
    (s.tryMap page).1 = none ↔ ¬ s.Mappable page := by
  have hfirst := mmap_eq_none_iff page hpos
  unfold tryMap
  simp only
  by_cases hretry : (s.mmap page).1 = none ∧ s.obj.hint ≠ 0
  · rw [if_pos hretry]
    have hsecond := mmap_eq_none_iff page
      (s := { (s.mmap page).2 with obj := { s.obj with hint := 0 } }) hpos
    rw [hsecond]
    show ¬ (page ∣ s.obj.offset ∧ ((s.mmap page).2.answers 0).ok = true) ↔ _
    rw [mmap_answers]
    have hnot := hfirst.1 hretry.1
    constructor
    · rintro h ⟨haligned, hok | ⟨-, hok⟩⟩
      · exact hnot ⟨haligned, hok⟩
      · exact h ⟨haligned, hok⟩
    · rintro h ⟨haligned, hok⟩
      exact h ⟨haligned, Or.inr ⟨hretry.2, hok⟩⟩
  · rw [if_neg hretry, hfirst]
    constructor
    · rintro h ⟨haligned, hok | ⟨hhint, -⟩⟩
      · exact h ⟨haligned, hok⟩
      · exact hretry ⟨hfirst.2 h, hhint⟩
    · rintro h ⟨haligned, hok⟩
      exact h ⟨haligned, Or.inl hok⟩

/-- What `NormalizeSize` does for a size that is within the file: it asks twice and leaves the size
as it is. -/
theorem normalizeSize_within (hpage : 0 < page) {s : State Path} (hpos : 0 < s.obj.size)
    (hoffset : 0 ≤ s.obj.offset) {inode : Nat} (hinode : s.files.inode s.obj.path = some inode)
    (hfits : s.obj.offset + s.obj.size ≤ s.files.size inode) :
    ((s.normalizeSize page).1 = true ↔ (s.answers 0).ok = true ∧ (s.answers 1).ok = true) ∧
      ((s.normalizeSize page).1 = true → (s.normalizeSize page).2.obj = s.obj ∧
        (s.normalizeSize page).2.answers = fun n => s.answers (n + 2)) := by
  have hround := le_roundSize hpage (n := (s.files.size inode : Int)) (by omega)
  have hvalid : validMappedSize page s.obj.offset s.obj.size (s.files.size inode) =
      some s.obj.size := by
    unfold validMappedSize
    simp only
    rw [if_pos (by omega), if_neg (by omega)]
  have hdefault : s.obj.size ≠ defaultLength := (lt_trans (by decide) hpos).ne'
  unfold normalizeSize
  rw [if_neg (by rw [defaultLength]; omega)]
  simp only
  cases hfirst : s.normalizePath.1 with
  | false =>
      have hfirst : (s.answers 0).ok = false := hfirst
      simp [hfirst]
  | true =>
      have hfirst : (s.answers 0).ok = true := hfirst
      have hexists : s.normalizePath.2.fileExists = true := by
        show (s.files.inode s.obj.path).isSome = true
        rw [hinode]
        rfl
      rw [hexists, if_neg (by simp), if_neg (by simp)]
      cases hsecond : (s.answers 1).ok with
      | false =>
          have hst : s.normalizePath.2.stat.1 = none := by
            show (if (s.answers 1).ok then _ else none) = none
            rw [hsecond]
            rfl
          unfold fitSize
          simp only [hst, if_true]
          rw [if_neg (by rw [defaultLength]; omega)]
          have hnone : validMappedSize page s.normalizePath.2.obj.offset page 0 = none :=
            validMappedSize_zero hoffset page
          rw [Option.getD_none, hnone]
          simp
      | true =>
          have hst : s.normalizePath.2.stat.1 = some (s.files.size inode : Int) := by
            show (if (s.answers 1).ok then (s.files.inode s.obj.path).map _ else none) = _
            rw [hsecond, hinode]
            rfl
          unfold fitSize
          simp only [hst, reduceCtorEq, if_false, Option.getD_some, normalizePath_obj, hdefault,
            hvalid]
          exact ⟨⟨fun _ => ⟨hfirst, trivial⟩, fun _ => trivial⟩, fun _ => ⟨trivial, rfl⟩⟩

/-- **When `Normalize` accepts parameters that are within the file.** -/
theorem normalize_within (hpage : 0 < page) {s : State Path} (hn : s.obj.isNormed = false)
    (hpos : 0 < s.obj.size) (hoffset : 0 ≤ s.obj.offset) {inode : Nat}
    (hinode : s.files.inode s.obj.path = some inode)
    (hfits : s.obj.offset + s.obj.size ≤ s.files.size inode) :
    ((s.normalize page).1 = .ok ↔
        page ∣ s.obj.offset ∧ (s.answers 0).ok = true ∧ (s.answers 1).ok = true) ∧
      ((s.normalize page).1 = .ok → (s.normalize page).2.obj.size = s.obj.size ∧
        (s.normalize page).2.answers = fun n => s.answers (n + 2)) := by
  obtain ⟨hiff, hsame⟩ := normalizeSize_within hpage hpos hoffset hinode hfits
  unfold normalize
  rw [hn, if_neg (by simp)]
  by_cases haligned : page ∣ s.obj.offset
  · have hmod := Int.tmod_eq_zero_of_dvd haligned
    rw [if_neg (by omega)]
    cases hns : (s.normalizeSize page).1 with
    | false =>
        rw [hns] at hiff
        simp only [hns, Bool.not_false, if_true]
        refine ⟨⟨fun h => absurd h (by simp), fun h => ?_⟩, fun h => absurd h (by simp)⟩
        exact absurd (hiff.2 h.2) (by simp)
    | true =>
        obtain ⟨hobj, hanswers⟩ := hsame hns
        simp only [hns, Bool.not_true, Bool.false_eq_true, if_false]
        refine ⟨⟨fun _ => ⟨haligned, hiff.1 hns⟩, fun _ => trivial⟩, fun _ => ⟨?_, hanswers⟩⟩
        show (s.normalizeSize page).2.obj.size = s.obj.size
        rw [hobj]
  · have hmod : s.obj.offset.tmod page ≠ 0 := fun h => haligned (dvd_of_tmod h)
    rw [if_pos (Or.inr hmod)]
    exact ⟨⟨fun h => absurd h (by simp), fun h => absurd h.1 haligned⟩, fun h => absurd h (by simp)⟩

section Map

variable [DecidableEq Path]

/-- `Map` of an object that has its file open. -/
theorem map_ok_iff (hpage : 0 < page) {s : State Path} (hm : s.obj.isMapped = false)
    (hfd : s.obj.fd ≠ none) (hpos : 0 < (s.normalize page).2.obj.size) :
    (s.map page).1 = .ok ↔
      (s.normalize page).1 ≠ .invalidValue ∧ (s.normalize page).2.Mappable page := by
  have hfd' : (s.normalize page).2.obj.fd = s.obj.fd := by
    rcases normalize_cases hpage s with ⟨-, hrun⟩ | ⟨-, -, hp, -⟩ | ⟨-, -, hp, -⟩
    · rw [hrun]
    · exact hp.fd
    · exact hp.fd
  have hopened : (s.normalize page).2.opened = (true, (s.normalize page).2) := by
    rw [opened, if_neg (by rw [hfd']; exact hfd)]
  have htry := tryMap_eq_none_iff page hpos
  rcases map_cases hpage s with ⟨hm', -⟩ | ⟨-, hval, hrun⟩ | ⟨-, hgood, hrest⟩
  · exact absurd (hm.symm.trans hm') (by simp)
  · rw [hrun, hval]
    exact ⟨fun h => absurd h (by simp), fun h => absurd rfl h.1⟩
  · rw [hopened] at hrest
    rcases hrest with ⟨hno, -⟩ | ⟨-, ⟨hnone, hrun⟩ | ⟨address, hsome, hrun⟩⟩
    · exact absurd hno (by simp)
    · rw [hrun]
      exact ⟨fun h => absurd h (by simp), fun h => absurd h.2 (htry.1 hnone)⟩
    · rw [hrun]
      refine ⟨fun _ => ⟨hgood, ?_⟩, fun _ => rfl⟩
      by_contra hnot
      rw [htry.2 hnot] at hsome
      exact absurd hsome (by simp)

/-- Parameters that are normalized are taken as they are. -/
theorem map_ok_iff_of_normed (hpage : 0 < page) {s : State Path} (hm : s.obj.isMapped = false)
    (hfd : s.obj.fd ≠ none) (hn : s.obj.isNormed = true) (hpos : 0 < s.obj.size) :
    (s.map page).1 = .ok ↔ s.Mappable page := by
  have hsame : s.normalize page = (.invalidOperation, s) := by rw [normalize, if_pos hn]
  rw [map_ok_iff hpage hm hfd (by rw [hsame]; exact hpos), hsame]
  exact ⟨fun h => h.2, fun h => ⟨by simp, h⟩⟩

/-- Parameters that are not are taken if they are found good; the system is asked at most four
times. -/
theorem map_ok_iff_of_within (hpage : 0 < page) {s : State Path} (hm : s.obj.isMapped = false)
    (hfd : s.obj.fd ≠ none) (hn : s.obj.isNormed = false) (hpos : 0 < s.obj.size)
    (hoffset : 0 ≤ s.obj.offset) (inode : Nat) (hinode : s.files.inode s.obj.path = some inode)
    (hfits : s.obj.offset + s.obj.size ≤ s.files.size inode) (hhint : s.obj.hint ≠ 0) :
    (s.map page).1 = .ok ↔ page ∣ s.obj.offset ∧ (s.answers 0).ok = true ∧
      (s.answers 1).ok = true ∧ ((s.answers 2).ok = true ∨ (s.answers 3).ok = true) := by
  obtain ⟨hiff, hsame⟩ := normalize_within hpage hn hpos hoffset hinode hfits
  rcases normalize_cases hpage s with ⟨hn', -⟩ | ⟨-, hval, -⟩ | ⟨-, hok, hfit, -⟩
  · exact absurd (hn.symm.trans hn') (by simp)
  · have hfail : (s.map page).1 ≠ .ok := by
      rcases map_cases hpage s with ⟨hm', -⟩ | ⟨-, -, hrun⟩ | ⟨-, hgood, -⟩
      · exact absurd (hm.symm.trans hm') (by simp)
      · rw [hrun, hval]
        simp
      · exact absurd hval hgood
    refine ⟨fun h => absurd h hfail, fun h => ?_⟩
    have hok := hiff.2 ⟨h.1, h.2.1, h.2.2.1⟩
    rw [hval] at hok
    exact absurd hok (by simp)
  · obtain ⟨-, hanswers⟩ := hsame hok
    obtain ⟨haligned, hfirst, hsecond⟩ := hiff.1 hok
    rw [map_ok_iff hpage hm hfd hfit.pos, Mappable, hfit.offset, hfit.hint, hanswers, hok]
    simp only [ne_eq, reduceCtorEq, not_false_eq_true, true_and, haligned, hfirst, hsecond, hhint]

end Map

end State

/-! ## Objects that can be mapped again -/

/-- A mapped object has its file open, and the offset of normalized parameters is in the file. -/
structure Ready (page : Int) (s : State Path) : Prop where
  segment : Segmented page s
  fd : s.obj.isMapped = true → s.obj.fd ≠ none
  offset : s.obj.isNormed = true → 0 ≤ s.obj.offset

theorem Ready.of_obj {s s' : State Path} (h : Ready page s) (hobj : s'.obj = s.obj) :
    Ready page s' where
  segment := h.segment.of_eq hobj
  fd := by rw [hobj]; exact h.fd
  offset := by rw [hobj]; exact h.offset

theorem Ready.of_fresh {s : State Path} (hm : s.obj.isMapped = false)
    (hn : s.obj.isNormed = false) : Ready page s where
  segment := Segmented.of_unmapped hm
  fd hm' := absurd (hm.symm.trans hm') (by simp)
  offset hn' := absurd (hn.symm.trans hn') (by simp)

/-- Without its region the object is as ready as its parameters are. -/
theorem Ready.of_unmapped {s s' : State Path} (h : Ready page s) (hm : s'.obj.isMapped = false)
    (hn : s'.obj.isNormed = s.obj.isNormed) (hoffset : s'.obj.offset = s.obj.offset) :
    Ready page s' where
  segment := Segmented.of_unmapped hm
  fd hm' := absurd (hm.symm.trans hm') (by simp)
  offset := by rw [hn, hoffset]; exact h.offset

theorem Ready.unmap {s : State Path} (h : Ready page s) : Ready page (s.unmap page).2 := by
  obtain ⟨-, ⟨-, hrun⟩ | ⟨-, -, hobj, -⟩ | ⟨-, -, hobj, -⟩⟩ := State.unmap_cases page s
  · rw [hrun]
    exact h
  · exact h.of_obj hobj
  · exact h.of_unmapped (by rw [hobj]) (by rw [hobj]) (by rw [hobj])

theorem Ready.stable : State.Stable page fun s : State Path => Ready page s where
  same h hobj _ _ := h.of_obj hobj
  params _ _ hp := Ready.of_fresh hp.isMapped hp.isNormed
  unmap h := h.unmap
  gone _ hg := Ready.of_fresh hg.isMapped hg.isNormed

theorem Ready.normalize (hpage : 0 < page) {s : State Path} (h : Ready page s) :
    Ready page (s.normalize page).2 := by
  have hsegment := h.segment.normalize hpage
  rcases State.normalize_cases hpage s with ⟨-, hrun⟩ | ⟨-, -, hp, hn, -⟩ |
    ⟨-, -, hp, -, hoffset, -⟩
  · rw [hrun]
    exact h
  · refine ⟨hsegment, by rw [hp.isMapped, hp.fd]; exact h.fd, fun hn' => ?_⟩
    exact absurd (hn.symm.trans hn') (by simp)
  · refine ⟨hsegment, by rw [hp.isMapped, hp.fd]; exact h.fd, fun _ => ?_⟩
    rw [hp.offset]
    exact hoffset

theorem Ready.resize (hpage : 0 < page) {s : State Path} (h : Ready page s) (newSize : Int)
    (sync : Bool) : Ready page (s.resize page newSize sync).2 := by
  have hsegment := h.segment.resize hpage newSize sync
  rcases State.resize_cases hpage s newSize sync with ⟨hobj, -⟩ | ⟨-, -, size, -, -, hcases⟩
  · exact h.of_obj hobj
  · rcases hcases with ⟨hobj, -⟩ | ⟨place, hobj, -⟩
    · exact h.of_obj hobj
    · exact ⟨hsegment, by rw [hobj]; exact h.fd, by rw [hobj]; exact h.offset⟩

section Steps

variable [DecidableEq Path]

theorem map_ok_mapped (hpage : 0 < page) {s : State Path} (hm : s.obj.isMapped = false)
    (hok : (s.map page).1 = .ok) : ∃ place, MappedAt page s.memory (s.map page).2 place := by
  rcases map_mapped hpage hm with ⟨hno, -⟩ | hat
  · rcases State.map_cases hpage s with ⟨hm', -⟩ | ⟨-, hval, hrun⟩ | ⟨-, -, hrest⟩
    · exact absurd (hm.symm.trans hm') (by simp)
    · rw [hrun, hval] at hok
      exact absurd hok (by simp)
    · rcases hrest with ⟨-, hrun⟩ | ⟨-, ⟨-, hrun⟩ | ⟨address, -, hrun⟩⟩
      · rw [hrun] at hok
        exact absurd hok (by simp)
      · rw [hrun] at hok
        exact absurd hok (by simp)
      · rw [hrun] at hno
        exact absurd hno (by simp [State.setRegion])
  · exact hat

/-- What `Map` leaves of an object whose parameters it has found good. -/
theorem opened_obj (s : State Path) : s.opened.2.obj.isMapped = s.obj.isMapped ∧
    s.opened.2.obj.isNormed = s.obj.isNormed ∧ s.opened.2.obj.offset = s.obj.offset ∧
    (s.opened.1 = true → s.opened.2.obj.fd ≠ none) := by
  unfold State.opened
  by_cases hfd : s.obj.fd = none
  · rw [if_pos hfd]
    rcases State.openFile_cases s with ⟨hno, hup⟩ | ⟨-, fd, hop⟩
    · rw [hup.obj]
      exact ⟨rfl, rfl, rfl, fun hyes => absurd (hno.symm.trans hyes) (by simp)⟩
    · rw [hop.obj]
      exact ⟨rfl, rfl, rfl, fun _ => by simp⟩
  · rw [if_neg hfd]
    exact ⟨rfl, rfl, rfl, fun _ => hfd⟩

theorem Ready.map (hpage : 0 < page) {s : State Path} (h : Ready page s) :
    Ready page (s.map page).2 := by
  have hsegment := h.segment.map hpage
  have hready := h.normalize hpage
  have hmapped := normalize_isMapped hpage s
  rcases State.map_cases hpage s with ⟨-, hrun⟩ | ⟨-, -, hrun⟩ | ⟨hm, hgood, hrest⟩
  · rw [hrun]
    exact h
  · rw [hrun]
    exact hready
  · obtain ⟨hom, hon, hooff, hofd⟩ := opened_obj (s.normalize page).2
    have hopened : Ready page (s.normalize page).2.opened.2 :=
      hready.of_unmapped (hom.trans (hmapped.trans hm)) hon hooff
    obtain ⟨⟨hint, hobj⟩, -, -⟩ := State.tryMap_cases page (s.normalize page).2.opened.2
    rcases hrest with ⟨-, hrun⟩ | ⟨hyes, ⟨-, hrun⟩ | ⟨address, -, hrun⟩⟩
    · rw [hrun]
      exact hopened
    · rw [hrun]
      refine hopened.of_unmapped ?_ (by rw [hobj]) (by rw [hobj])
      rw [hobj]
      exact hom.trans (hmapped.trans hm)
    · refine ⟨hsegment, fun _ => ?_, fun _ => ?_⟩
      · rw [hrun]
        show ((s.normalize page).2.opened.2.tryMap page).2.obj.fd ≠ none
        rw [hobj]
        exact hofd hyes
      · rw [hrun]
        show 0 ≤ ((s.normalize page).2.opened.2.tryMap page).2.obj.offset
        rw [hobj]
        exact hopened.offset (hon.trans (normalize_isNormed hpage hgood))

theorem Ready.turnNext (hpage : 0 < page) {s : State Path} (h : Ready page s) :
    Ready page (s.turnNext page).2 := by
  have hsegment := h.segment.turnNext hpage
  rcases State.turnNext_cases page s with ⟨hobj, -⟩ | ⟨hn, inode, -, -, -, hcases⟩
  · exact h.of_obj hobj
  · rcases hcases with ⟨hm, -, -, hobj⟩ | ⟨hm, -, hobj, -⟩ | ⟨hm, -, q, hqobj, -, -, hrun⟩
    · exact Ready.of_fresh (by rw [hobj]; exact hm) (by rw [hobj])
    · refine ⟨hsegment, by rw [hobj]; exact h.fd, fun _ => ?_⟩
      have hpos := (h.segment hm).pos
      have hoffset := h.offset hn
      rw [hobj]
      show 0 ≤ s.obj.offset + s.obj.size
      omega
    · have hq := h.of_obj hqobj
      rw [← hqobj] at hm hn
      rcases State.turnRegion_cases q (s.files.size inode) hm hn with ⟨hobj, -⟩ |
        ⟨u, huobj, -, -, hmap⟩
      · rw [hrun]
        exact hq.of_obj hobj
      · have hum : u.obj.isMapped = false := by rw [huobj]
        have hu : Ready page u := Ready.of_fresh hum (by rw [huobj]; rfl)
        rcases hmap with ⟨-, heq⟩ | ⟨hfail, heq⟩
        · rw [hrun, heq]
          exact hu.map hpage
        · rw [hrun, heq]
          exact hq.of_unmapped (map_failed hpage hum hfail).1 hn.symm rfl

theorem Ready.step (hpage : 0 < page) {s : State Path} (h : Ready page s) (empty : Path)
    (op : Op Path) : Ready page (s.step page empty op) :=
  Ready.stable.step h empty op (h.normalize hpage) (fun _ => h.map hpage)
    (fun newSize sync _ => h.resize hpage newSize sync) fun _ => h.turnNext hpage

/-- **Every state an object gets into is ready**, whatever the system answers and whatever others do
to the files between two calls. -/
theorem ready_foldl (hpage : 0 < page) (empty path : Path) (files : Files Path)
    (answers : Nat → Answer) (events : List (Event Path)) :
    Ready page (events.foldl (State.see page empty) (State.new path files answers)) := by
  have hnew : Ready page (State.new path files answers) := Ready.of_fresh rfl rfl
  generalize State.new path files answers = s at hnew
  induction events generalizing s with
  | nil => exact hnew
  | cons event events ih =>
      refine ih _ ?_
      cases event with
      | call op => exact hnew.step hpage empty op
      | outside files => exact hnew.of_obj rfl

end Steps

end CUtils.MappedFiles
