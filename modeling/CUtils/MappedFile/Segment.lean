import CUtils.MappedFile.Region

/-!
# The segment and the file

`Placed` says that the segment stands in the region where its bytes stand in the file, counted from
the offset the region was mapped at. `Resize(newSize, sync)` moves the segment back to the start of
the region and leaves the offset, so it keeps this only if the segment was there before
(`Op.AtStart`).

`Covered` adds the file: the region does not go past its last page, nor do parameters that are
normalized. Here the files change through the object only.
-/

namespace CUtils.MappedFiles

open StateRun

variable {Path : Type} {page : Int}

/-! ## The segment in the region -/

/-- `Resize` is asked for a segment at the start of its region. -/
def Op.AtStart (s : State Path) : Op Path → Prop
  | .resize newSize _ => s.obj.isMapped = true → ¬ s.Refused newSize → s.obj.data = s.obj.rStart
  | _ => True

/-- The start of the segment is the byte at the offset. -/
def Placed (s : State Path) : Prop :=
  s.obj.isMapped = true → s.obj.data - s.obj.rStart = s.obj.offset - s.memory.base

theorem Placed.of_unmapped {s : State Path} (h : s.obj.isMapped = false) : Placed s :=
  fun hm => absurd (h.symm.trans hm) (by simp)

theorem Placed.of_eq {s s' : State Path} (h : Placed s) (hobj : s'.obj = s.obj)
    (hbase : s'.memory.base = s.memory.base) : Placed s' := by
  unfold Placed
  rw [hobj, hbase]
  exact h

theorem MappedAt.placed {memory : Memory} {s : State Path} {place : Nat}
    (h : MappedAt page memory s place) : Placed s := by
  intro _
  rw [h.memory, h.data, h.rStart]
  show _ = s.obj.offset - s.obj.offset
  omega

theorem Placed.unmap {s : State Path} (h : Placed s) : Placed (s.unmap page).2 := by
  obtain ⟨-, ⟨-, hrun⟩ | ⟨-, -, hobj, hmemory⟩ | ⟨-, -, hobj, -⟩⟩ := State.unmap_cases page s
  · rw [hrun]
    exact h
  · exact h.of_eq hobj (by rw [hmemory]; rfl)
  · exact Placed.of_unmapped (by rw [hobj])

theorem Placed.stable : State.Stable page fun s : State Path => Placed s where
  same h hobj hmemory _ := h.of_eq hobj (by rw [hmemory])
  params _ _ hp := Placed.of_unmapped hp.isMapped
  unmap h := h.unmap
  gone _ hg := Placed.of_unmapped hg.isMapped

theorem Placed.normalize (hpage : 0 < page) {s : State Path} (h : Placed s)
    (hsegment : Segmented page s) : Placed (s.normalize page).2 := by
  cases hm : s.obj.isMapped with
  | true =>
      rw [State.normalize, if_pos (hsegment hm).isNormed]
      exact h
  | false => exact Placed.of_unmapped ((normalize_isMapped hpage s).trans hm)

theorem Placed.resize (hpage : 0 < page) {s : State Path} (h : Placed s) {newSize : Int}
    {sync : Bool} (hstart : Op.AtStart s (.resize newSize sync)) :
    Placed (s.resize page newSize sync).2 := by
  rcases State.resize_cases hpage s newSize sync with ⟨hobj, hmemory, -⟩ |
    ⟨hm, hasked, size, -, -, ⟨hobj, hmemory⟩ | ⟨place, hobj, hmemory⟩⟩
  · exact h.of_eq hobj (by rw [hmemory])
  · exact h.of_eq hobj (by rw [hmemory]; rfl)
  · intro _
    have hplaced := h hm
    have hat := hstart hm hasked
    rw [hobj, hmemory]
    show (place + 1) * page - (place + 1) * page = s.obj.offset - s.memory.base
    omega

theorem Placed.turnSegment {s : State Path} (h : Placed s) : Placed s.turnSegment.2 := by
  intro hm
  have hplaced := h hm
  show s.obj.data + s.obj.size - s.obj.rStart = s.obj.offset + s.obj.size - s.memory.base
  omega

/-- **The segment is at its place in the region.** -/
structure InPlace (s : State Path) : Prop where
  offset : s.obj.data - s.obj.rStart = s.obj.offset - s.memory.base
  start_le : s.obj.rStart ≤ s.obj.data
  le_end : s.obj.data + s.obj.size ≤ s.obj.rEnd + 1

def Event.AtStart (s : State Path) : Event Path → Prop
  | .call op => op.AtStart s
  | .outside _ => True

section Steps

variable [DecidableEq Path]

theorem Placed.map (hpage : 0 < page) {s : State Path} (h : Placed s) : Placed (s.map page).2 := by
  cases hm : s.obj.isMapped with
  | true =>
      rw [State.map, if_pos hm]
      exact h
  | false =>
      rcases map_mapped hpage hm with ⟨hm', -⟩ | ⟨place, hat⟩
      · exact Placed.of_unmapped hm'
      · exact hat.placed

theorem Placed.turnNext (hpage : 0 < page) {s : State Path} (h : Placed s) :
    Placed (s.turnNext page).2 := by
  rcases State.turnNext_cases page s with ⟨hobj, hmemory, -⟩ |
    ⟨hn, inode, -, -, -, hcases⟩
  · exact h.of_eq hobj (by rw [hmemory])
  · rcases hcases with ⟨hm, -, -, hobj⟩ | ⟨-, -, hobj, hmemory, -⟩ |
      ⟨hm, -, q, hqobj, hqmemory, -, hrun⟩
    · exact Placed.of_unmapped (by rw [hobj]; exact hm)
    · exact h.turnSegment.of_eq hobj (by rw [hmemory]; rfl)
    · rw [hrun]
      rw [← hqobj] at hm hn
      rcases turnRegion_mapped hpage hm hn with ⟨hobj, hmemory⟩ | ⟨hm', -⟩ | ⟨place, hat⟩
      · refine h.of_eq (hobj.trans hqobj) ?_
        rw [hmemory]
        show q.memory.base = s.memory.base
        rw [hqmemory]
      · exact Placed.of_unmapped hm'
      · exact hat.placed

theorem Placed.step (hpage : 0 < page) {s : State Path} (h : Placed s) (hsegment : Segmented page s)
    (empty : Path) {op : Op Path} (hstart : op.AtStart s) : Placed (s.step page empty op) :=
  Placed.stable.step h empty op (h.normalize hpage hsegment) (fun _ => h.map hpage)
    (fun newSize sync hop => by subst hop; exact h.resize hpage hstart) fun _ => h.turnNext hpage

/-- **`Begin()` is the byte at `StartOffset()`**, in every run in which only segments at the start of
their region are resized. -/
theorem begin_at_offset (hpage : 0 < page) (empty path : Path) (files : Files Path)
    (answers : Nat → Answer) {events : List (Event Path)}
    (hstart : Along Event.AtStart (State.see page empty) (State.new path files answers) events)
    (hm : (events.foldl (State.see page empty) (State.new path files answers)).obj.isMapped = true) :
    InPlace (events.foldl (State.see page empty) (State.new path files answers)) := by
  have hkept := Along.invariant (I := fun s : State Path => Segmented page s ∧ Placed s)
    (fun s event hevent h => ?_) hstart ⟨Segmented.of_unmapped rfl, Placed.of_unmapped rfl⟩
  · exact ⟨hkept.2 hm, (hkept.1 hm).start_le, (hkept.1 hm).le_end⟩
  · cases event with
    | call op => exact ⟨h.1.step hpage empty op, h.2.step hpage h.1 empty hevent⟩
    | outside files => exact ⟨h.1.of_eq rfl, h.2.of_eq rfl rfl⟩

/-- Half a page, resized to the page and back, and turned. -/
theorem begin_at_offset_half :
    InPlace ([.call (.construct true 0 0 2048 0), .call .map, .call (.resize 4096 false),
      .call (.resize 2048 true), .outside World.twoPaths, .call .turnNext].foldl
        (State.see 4096 false) (State.new false World.twoPaths World.granted)) :=
  begin_at_offset (by decide) false false World.twoPaths World.granted
    ⟨trivial, trivial, fun _ _ => by decide +kernel, fun _ _ => by decide +kernel, trivial, trivial,
      trivial⟩ (by decide +kernel)

/-- **A segment put back to the start.** The second of four quarters of a page is resized to half a
page; `Begin()` is then the start of the page and `StartOffset()` still the second quarter. -/
theorem resized_segment_moved :
    ([.call (.construct true 0 0 1024 0), .call .map, .call .turnNext,
      .call (.resize 2048 false)].foldl (State.see 4096 false)
        (State.new false World.twoPaths World.granted)).obj.isMapped = true ∧
    ¬ InPlace ([.call (.construct true 0 0 1024 0), .call .map, .call .turnNext,
      .call (.resize 2048 false)].foldl (State.see 4096 false)
        (State.new false World.twoPaths World.granted)) := by
  refine ⟨by decide +kernel, fun h => ?_⟩
  have hoffset := h.offset
  revert hoffset
  decide +kernel

end Steps

/-! ## The region and the file -/

/-- **An access to the segment meets the file.** -/
structure WithinFile (page : Int) (s : State Path) : Prop where
  pos : 0 < s.obj.size
  fits : ∃ inode, s.files.inode s.obj.path = some inode ∧
    s.obj.offset + s.obj.size ≤ roundSize page (s.files.size inode)

/-- What the normalized parameters name does not go past the last page of the file. -/
def Fitted (page : Int) (s : State Path) : Prop :=
  s.obj.isNormed = true → 0 < s.obj.size ∧ ∀ inode, s.files.inode s.obj.path = some inode →
    s.obj.offset + s.obj.size ≤ roundSize page (s.files.size inode)

/-- The region does not go past the last page of the file. -/
def Covered (page : Int) (s : State Path) : Prop :=
  s.obj.isMapped = true → page ∣ s.memory.base ∧
    ∀ inode, s.files.inode s.obj.path = some inode →
      s.memory.base + s.obj.regionSize ≤ roundSize page (s.files.size inode)

theorem Fitted.of_not_normed {s : State Path} (h : s.obj.isNormed = false) : Fitted page s :=
  fun hn => absurd (h.symm.trans hn) (by simp)

theorem Covered.of_unmapped {s : State Path} (h : s.obj.isMapped = false) : Covered page s :=
  fun hm => absurd (h.symm.trans hm) (by simp)

/-- The same parameters and the same files. -/
theorem Fitted.of_same {s s' : State Path} (h : Fitted page s)
    (hobj : s'.obj.isNormed = s.obj.isNormed ∧ s'.obj.size = s.obj.size ∧
      s'.obj.offset = s.obj.offset ∧ s'.obj.path = s.obj.path)
    (hfiles : s'.files = s.files) : Fitted page s' := by
  unfold Fitted
  rw [hobj.1, hobj.2.1, hobj.2.2.1, hobj.2.2.2, hfiles]
  exact h

/-- The same object and a file that is no smaller. -/
theorem Fitted.of_grown (hpage : 0 < page) {s s' : State Path} (h : Fitted page s)
    (hobj : s'.obj = s.obj)
    (hkept : ∀ inode, s'.files.inode s.obj.path = some inode →
      s.files.inode s.obj.path = some inode ∧ s.files.size inode ≤ s'.files.size inode) :
    Fitted page s' := by
  unfold Fitted
  rw [hobj]
  intro hn
  obtain ⟨hpos, hfits⟩ := h hn
  refine ⟨hpos, fun inode hinode => ?_⟩
  obtain ⟨hold, hle⟩ := hkept inode hinode
  exact (hfits inode hold).trans (roundSize_mono hpage (by omega) (by exact_mod_cast hle))

theorem Covered.of_grown (hpage : 0 < page) {s s' : State Path} (h : Covered page s)
    (hobj : s'.obj = s.obj) (hbase : s'.memory.base = s.memory.base)
    (hkept : ∀ inode, s'.files.inode s.obj.path = some inode →
      s.files.inode s.obj.path = some inode ∧ s.files.size inode ≤ s'.files.size inode) :
    Covered page s' := by
  unfold Covered
  rw [hobj, hbase]
  intro hm
  obtain ⟨haligned, hcovers⟩ := h hm
  refine ⟨haligned, fun inode hinode => ?_⟩
  obtain ⟨hold, hle⟩ := hkept inode hinode
  exact (hcovers inode hold).trans (roundSize_mono hpage (by omega) (by exact_mod_cast hle))

/-- A region for a size that fits, from a page of the file on. -/
theorem base_add_roundSize_le (hpage : 0 < page) {base size st : Int} (hbase : page ∣ base)
    (hsize : 0 ≤ size) (hst : 0 ≤ st) (hfits : base + size ≤ roundSize page st) :
    base + roundSize page size ≤ roundSize page st := by
  have hdvd : page ∣ roundSize page st - base := Int.dvd_sub (dvd_roundSize hst) hbase
  have hle := (roundSize_le_iff hpage hsize hdvd).2 (by omega)
  omega

theorem MappedAt.covered (hpage : 0 < page) {memory : Memory} {s : State Path} {place : Nat}
    (h : MappedAt page memory s place) (hfitted : Fitted page s) : Covered page s := by
  intro _
  have hbase : s.memory.base = s.obj.offset := by rw [h.memory]
  have hregion : s.obj.regionSize = roundSize page s.obj.size := by
    rw [MappedFile.regionSize, h.rEnd, h.rStart]
    omega
  rw [hbase, hregion]
  refine ⟨h.aligned, fun inode hinode => ?_⟩
  exact base_add_roundSize_le hpage h.aligned h.pos.le (by omega) ((hfitted h.isNormed).2 inode hinode)

/-- A segment of a region that is covered fits the file. -/
theorem Covered.fitted {s : State Path} (h : Covered page s) (hm : s.obj.isMapped = true)
    (hsegment : Segment page s.obj) (hplaced : Placed s) : Fitted page s := by
  intro _
  refine ⟨hsegment.pos, fun inode hinode => ?_⟩
  have hcovers := (h hm).2 inode hinode
  have hat := hplaced hm
  have hend := hsegment.le_end
  unfold MappedFile.regionSize at hcovers
  omega

structure Sheltered (page : Int) (s : State Path) : Prop where
  rooted : Rooted s
  segment : Segmented page s
  placed : Placed s
  fitted : Fitted page s
  covered : Covered page s

theorem Sheltered.of_eq (hpage : 0 < page) {s s' : State Path} (h : Sheltered page s)
    (hobj : s'.obj = s.obj) (hbase : s'.memory.base = s.memory.base) (hfiles : s'.files = s.files) :
    Sheltered page s' := by
  refine ⟨h.rooted.of_eq hobj (by rw [hfiles]) (by rw [hfiles]), h.segment.of_eq hobj,
    h.placed.of_eq hobj hbase, ?_, ?_⟩
  · exact h.fitted.of_same (by rw [hobj]; exact ⟨rfl, rfl, rfl, rfl⟩) hfiles
  · refine h.covered.of_grown hpage hobj hbase fun inode hinode => ?_
    rw [hfiles] at hinode ⊢
    exact ⟨hinode, le_rfl⟩

theorem Sheltered.unmap (hpage : 0 < page) {s : State Path} (h : Sheltered page s) :
    Sheltered page (s.unmap page).2 := by
  obtain ⟨hfiles, ⟨-, hrun⟩ | ⟨-, -, hobj, hmemory⟩ | ⟨-, -, hobj, -⟩⟩ :=
    State.unmap_cases page s
  · rw [hrun]
    exact h
  · exact h.of_eq hpage hobj (by rw [hmemory]; rfl) hfiles
  · refine ⟨h.rooted.unmap, h.segment.unmap, h.placed.unmap, ?_,
      Covered.of_unmapped (by rw [hobj])⟩
    exact h.fitted.of_same (by rw [hobj]; exact ⟨rfl, rfl, rfl, rfl⟩) hfiles

theorem Sheltered.stable (hpage : 0 < page) :
    State.Stable page fun s : State Path => Sheltered page s where
  same h hobj hmemory hfiles := h.of_eq hpage hobj (by rw [hmemory]) hfiles
  params h hm hp := ⟨h.rooted.of_obj hp.files hp.fd hp.isMapped hp.isNormed,
    Segmented.of_unmapped hp.isMapped, Placed.of_unmapped hp.isMapped,
    Fitted.of_not_normed hp.isNormed, Covered.of_unmapped hp.isMapped⟩
  unmap h := h.unmap hpage
  gone h hg := ⟨h.rooted.of_obj hg.files (Or.inl hg.fd) hg.isMapped hg.isNormed,
    Segmented.of_unmapped hg.isMapped,
    Placed.of_unmapped hg.isMapped, Fitted.of_not_normed hg.isNormed,
    Covered.of_unmapped hg.isMapped⟩

theorem Fitted.normalize (hpage : 0 < page) {s : State Path} (h : Fitted page s) :
    Fitted page (s.normalize page).2 := by
  rcases State.normalize_cases hpage s with ⟨-, hrun⟩ | ⟨-, -, -, hn, -⟩ | ⟨-, -, hfit, -⟩
  · rw [hrun]
    exact h
  · exact Fitted.of_not_normed hn
  · intro _
    refine ⟨hfit.pos, fun inode hinode => ?_⟩
    rw [hfit.files, hfit.path] at hinode
    rw [hfit.files, hfit.offset]
    rcases hfit.fits with ⟨hnone, -⟩ | ⟨-, inode', hinode', hfits⟩
    · rw [hnone] at hinode
      exact absurd hinode (by simp)
    · obtain rfl := Option.some.inj (hinode.symm.trans hinode')
      exact hfits

theorem Sheltered.normalize (hpage : 0 < page) {s : State Path} (h : Sheltered page s) :
    Sheltered page (s.normalize page).2 := by
  refine ⟨h.rooted.normalize hpage, h.segment.normalize hpage, h.placed.normalize hpage h.segment,
    h.fitted.normalize hpage, ?_⟩
  cases hm : s.obj.isMapped with
  | true =>
      rw [State.normalize, if_pos (h.segment hm).isNormed]
      exact h.covered
  | false => exact Covered.of_unmapped ((normalize_isMapped hpage s).trans hm)

/-- A size that `Resize` has settled on fits what has become of the file. -/
theorem settled_fits (hpage : 0 < page) {s : State Path} (h : Sheltered page s)
    (hm : s.obj.isMapped = true) {size : Int} {files : Files Path}
    (hset : State.Settled page s size files) :
    (∀ inode, files.inode s.obj.path = some inode →
      s.files.inode s.obj.path = some inode ∧ s.files.size inode ≤ files.size inode) ∧
    ∀ inode, files.inode s.obj.path = some inode →
      s.obj.offset + size ≤ roundSize page (files.size inode) := by
  rcases hset with ⟨rfl, hle⟩ | ⟨rfl, inode, hinode, hfits⟩ | ⟨inode, fd, hinode, hfd, hlt, rfl⟩
  · refine ⟨fun inode hinode => ⟨hinode, le_rfl⟩, fun inode hinode => ?_⟩
    have hfits := (h.fitted (h.segment hm).isNormed).2 inode hinode
    omega
  · refine ⟨fun inode hinode => ⟨hinode, le_rfl⟩, fun inode' hinode' => ?_⟩
    obtain rfl := Option.some.inj (hinode.symm.trans hinode')
    exact hfits
  · have heq : fd.inode = inode := Option.some.inj ((h.rooted.fd fd hfd).symm.trans hinode)
    refine ⟨fun inode' hinode' => ⟨hinode', ?_⟩, fun inode' hinode' => ?_⟩
    · obtain rfl := Option.some.inj (hinode.symm.trans hinode')
      simp only [heq, Function.update_self]
      omega
    · obtain rfl := Option.some.inj (hinode.symm.trans hinode')
      simp only [heq, Function.update_self]
      have hle := le_roundSize hpage (n := ((s.obj.offset + size).toNat : Int)) (by omega)
      omega

theorem Sheltered.resize (hpage : 0 < page) {s : State Path} (h : Sheltered page s) {newSize : Int}
    {sync : Bool} (hstart : Op.AtStart s (.resize newSize sync)) :
    Sheltered page (s.resize page newSize sync).2 := by
  have hrooted := h.rooted.resize hpage newSize sync
  have hsegment := h.segment.resize hpage newSize sync
  have hplaced := h.placed.resize hpage hstart
  rcases State.resize_cases hpage s newSize sync with ⟨hobj, hmemory, hfiles⟩ |
    ⟨hm, hasked, size, hsize, hset, hcases⟩
  · exact h.of_eq hpage hobj (by rw [hmemory]) hfiles
  · obtain ⟨hkept, hfits⟩ := settled_fits hpage h hm hset
    rcases hcases with ⟨hobj, hmemory⟩ | ⟨place, hobj, hmemory⟩
    · exact ⟨hrooted, hsegment, hplaced, h.fitted.of_grown hpage hobj hkept,
        h.covered.of_grown hpage hobj (by rw [hmemory]; rfl) hkept⟩
    · have hcovered : Covered page (s.resize page newSize sync).2 := by
        intro _
        have hat := hstart hm hasked
        have hbase := h.placed hm
        obtain ⟨haligned, -⟩ := h.covered hm
        rw [hobj, hmemory]
        refine ⟨haligned, fun inode hinode => ?_⟩
        have hregion : (place + 1) * page + roundSize page size - 1 - (place + 1) * page + 1 =
            roundSize page size := by omega
        show s.memory.base + (_ - _ + 1) ≤ _
        rw [hregion]
        refine base_add_roundSize_le hpage haligned hsize.le (by omega) ?_
        have := hfits inode hinode
        omega
      have hm' : (s.resize page newSize sync).2.obj.isMapped = true := by rw [hobj]; exact hm
      exact ⟨hrooted, hsegment, hplaced, hcovered.fitted hm' (hsegment hm') hplaced, hcovered⟩

section Steps

variable [DecidableEq Path]

/-- A file taken for new is given the size it is mapped with. -/
theorem Fitted.opened (hpage : 0 < page) {s : State Path} (h : Fitted page s) (hrooted : Rooted s)
    (hn : s.obj.isNormed = true) : Fitted page s.opened.2 := by
  unfold State.opened
  by_cases hfd : s.obj.fd = none
  · rw [if_pos hfd]
    obtain ⟨hpos, hfits⟩ := h hn
    rcases State.openFile_cases s with ⟨-, hup⟩ | ⟨-, fd, hop⟩
    · rcases hup.files with hfiles | ⟨-, hinode, -⟩
      · exact h.of_same (by rw [hup.obj]; exact ⟨rfl, rfl, rfl, rfl⟩) hfiles
      · intro _
        rw [hup.obj, hinode]
        refine ⟨hpos, fun inode hi => ?_⟩
        rw [Function.update_self] at hi
        exact absurd hi (by simp)
    · intro _
      rw [hop.obj, hop.inode]
      refine ⟨hpos, fun inode hi => ?_⟩
      rw [Function.update_self] at hi
      obtain rfl := Option.some.inj hi
      show s.obj.offset + s.obj.size ≤ _
      rcases hop.sized with ⟨-, -, hsize⟩ | ⟨hold, hsame⟩
      · rw [MappedFile.endOffset, if_neg (lt_trans (by decide) hpos).ne'] at hsize
        rw [hsize]
        have hle := le_roundSize hpage (n := s.obj.offset + s.obj.size - 1 + 1) (by omega)
        omega
      · rcases hop.found with hfound | ⟨hnone, -⟩
        · rw [hsame hfound]
          exact hfits _ hfound
        · exact absurd ((hrooted.absent hn hnone).symm.trans hold) (by simp)
  · rw [if_neg hfd]
    exact h

theorem Fitted.map (hpage : 0 < page) {s : State Path} (h : Fitted page s) (hrooted : Rooted s) :
    Fitted page (s.map page).2 := by
  rcases State.map_cases hpage s with ⟨-, hrun⟩ | ⟨-, -, hrun⟩ | ⟨-, hgood, hrest⟩
  · rw [hrun]
    exact h
  · rw [hrun]
    exact h.normalize hpage
  · have hopened := (h.normalize hpage).opened hpage (hrooted.normalize hpage)
      (normalize_isNormed hpage hgood)
    obtain ⟨⟨hint, hobj⟩, hfiles, -⟩ :=
      State.tryMap_cases page (s.normalize page).2.opened.2
    have htried := hopened.of_same (by rw [hobj]; exact ⟨rfl, rfl, rfl, rfl⟩) hfiles
    rcases hrest with ⟨-, hrun⟩ | ⟨-, ⟨-, hrun⟩ | ⟨address, -, hrun⟩⟩
    · rw [hrun]
      exact hopened
    · rw [hrun]
      exact htried
    · rw [hrun]
      exact htried

theorem Sheltered.map (hpage : 0 < page) {s : State Path} (h : Sheltered page s) :
    Sheltered page (s.map page).2 := by
  have hfitted := h.fitted.map hpage h.rooted
  refine ⟨h.rooted.map hpage, h.segment.map hpage, h.placed.map hpage, hfitted, ?_⟩
  cases hm : s.obj.isMapped with
  | true =>
      rw [State.map, if_pos hm]
      exact h.covered
  | false =>
      rcases map_mapped hpage hm with ⟨hm', -⟩ | ⟨place, hat⟩
      · exact Covered.of_unmapped hm'
      · exact hat.covered hpage hfitted

theorem Sheltered.turnRegion (hpage : 0 < page) {s : State Path} (h : Sheltered page s)
    (hm : s.obj.isMapped = true) (stSize : Int) :
    Fitted page (s.turnRegion page stSize).2 ∧ Covered page (s.turnRegion page stSize).2 := by
  have hn := (h.segment hm).isNormed
  rcases State.turnRegion_cases s stSize hm hn with ⟨hobj, hmemory, hfiles⟩ |
    ⟨u, huobj, -, hufiles, hmap⟩
  · have hsame := h.of_eq hpage hobj (by rw [hmemory]; rfl) hfiles
    exact ⟨hsame.fitted, hsame.covered⟩
  · have hum : u.obj.isMapped = false := by rw [huobj]
    have hurooted : Rooted u := by
      refine h.rooted.of_obj hufiles (Or.inr ?_) hum ?_
      all_goals rw [huobj]
      · exact ⟨rfl, rfl⟩
      · rfl
    have hu : Sheltered page u := ⟨hurooted, Segmented.of_unmapped hum, Placed.of_unmapped hum,
      Fitted.of_not_normed (by rw [huobj]; rfl), Covered.of_unmapped hum⟩
    rcases hmap with ⟨-, heq⟩ | ⟨hfail, heq⟩
    · rw [heq]
      exact ⟨(hu.map hpage).fitted, (hu.map hpage).covered⟩
    · -- the old parameters fit the file as they did: it has not been touched
      rw [heq]
      have hufd : u.obj.fd ≠ none := by
        rw [huobj]
        exact h.rooted.mapped hm
      obtain ⟨hfiles, hpath, -⟩ := map_files hpage hufd
      refine ⟨?_, Covered.of_unmapped (map_failed hpage hum hfail).1⟩
      refine h.fitted.of_same ⟨hn.symm, rfl, rfl, ?_⟩ (hfiles.trans hufiles)
      show (u.map page).2.obj.path = s.obj.path
      rw [hpath, huobj]
      rfl

theorem Sheltered.turnNext (hpage : 0 < page) {s : State Path} (h : Sheltered page s) :
    Sheltered page (s.turnNext page).2 := by
  have hrooted := h.rooted.turnNext hpage
  have hsegment := h.segment.turnNext hpage
  have hplaced := h.placed.turnNext hpage
  rcases State.turnNext_cases page s with ⟨hobj, hmemory, hfiles⟩ |
    ⟨hn, inode, -, -, -, hcases⟩
  · exact h.of_eq hpage hobj (by rw [hmemory]) hfiles
  · rcases hcases with ⟨hm, -, -, hobj⟩ | ⟨hm, -, hobj, hmemory, hfiles⟩ |
      ⟨hm, -, q, hqobj, hqmemory, hqfiles, hrun⟩
    · exact ⟨hrooted, hsegment, hplaced, Fitted.of_not_normed (by rw [hobj]),
        Covered.of_unmapped (by rw [hobj]; exact hm)⟩
    · have hm' : (s.turnNext page).2.obj.isMapped = true := by rw [hobj]; exact hm
      have hcovered : Covered page (s.turnNext page).2 := by
        unfold Covered
        rw [hobj, hmemory, hfiles]
        exact h.covered
      exact ⟨hrooted, hsegment, hplaced, hcovered.fitted hm' (hsegment hm') hplaced, hcovered⟩
    · have hq := h.of_eq hpage hqobj (by rw [hqmemory]) hqfiles
      rw [← hqobj] at hm
      have hturned := hq.turnRegion hpage hm (s.files.size inode)
      rw [← hrun] at hturned
      exact ⟨hrooted, hsegment, hplaced, hturned.1, hturned.2⟩

theorem Sheltered.step (hpage : 0 < page) {s : State Path} (h : Sheltered page s) (empty : Path)
    {op : Op Path} (hstart : op.AtStart s) : Sheltered page (s.step page empty op) :=
  (Sheltered.stable hpage).step h empty op (h.normalize hpage) (fun _ => h.map hpage)
    (fun newSize sync hop => by subst hop; exact h.resize hpage hstart) fun _ => h.turnNext hpage

/-- **No segment goes past the last page of the file**, in every run in which only segments at the
start of their region are resized. -/
theorem segment_within_file (hpage : 0 < page) (empty path : Path) {files : Files Path}
    (hfresh : ∀ path inode, files.inode path = some inode → inode < files.next)
    (answers : Nat → Answer) {ops : List (Op Path)}
    (hstart : Along (fun s op => op.AtStart s) (State.step page empty) (State.new path files answers)
      ops)
    (hm : ((State.new path files answers).run page empty ops).obj.isMapped = true) :
    WithinFile page ((State.new path files answers).run page empty ops) := by
  have hnew : Sheltered page (State.new path files answers) :=
    ⟨rooted_new path answers hfresh, Segmented.of_unmapped rfl, Placed.of_unmapped rfl,
      Fitted.of_not_normed rfl, Covered.of_unmapped rfl⟩
  have hrun : Sheltered page ((State.new path files answers).run page empty ops) :=
    Along.invariant (fun s op hop h => h.step hpage empty hop) hstart hnew
  have hn := (hrun.segment hm).isNormed
  obtain ⟨fd, hfd⟩ := Option.ne_none_iff_exists'.1 (hrun.rooted.mapped hm)
  have hinode := hrun.rooted.fd fd hfd
  exact ⟨(hrun.fitted hn).1, fd.inode, hinode, (hrun.fitted hn).2 _ hinode⟩

/-- Half a page, with the file extended for two pages more, and turned twice. -/
theorem segment_within_file_extended :
    WithinFile 4096 ((State.new false World.twoPaths World.granted).run 4096 false
      [.construct true 0 4096 2048 0, .map, .resize 12288 true, .resize 2048 true, .turnNext,
        .turnNext]) :=
  segment_within_file (by decide) false false World.twoPaths_fresh World.granted
    ⟨trivial, trivial, fun _ _ => by decide +kernel, fun _ _ => by decide +kernel, trivial, trivial,
      trivial⟩ (by decide +kernel)

/-- **A segment past the file.** The second quarter of the last page is resized to half a page and
turned: the object takes the other half of its region, and counts it from the last quarter on. -/
theorem turned_past_file :
    ((State.new false World.twoPaths World.granted).run 4096 false
      [.construct true 0 4096 1024 0, .map, .turnNext, .resize 2048 false, .turnNext]).obj.isMapped =
        true ∧
    ¬ WithinFile 4096 ((State.new false World.twoPaths World.granted).run 4096 false
      [.construct true 0 4096 1024 0, .map, .turnNext, .resize 2048 false, .turnNext]) := by
  refine ⟨by decide +kernel, ?_⟩
  rintro ⟨-, inode, hinode, hfits⟩
  obtain rfl : 0 = inode := Option.some.inj hinode
  revert hfits
  decide +kernel

end Steps

end CUtils.MappedFiles
