import CUtils.MappedFile.Files

/-!
# The region

A mapped object has a segment inside its region: it is not empty, and neither end sticks out. This
holds in every state (`Segmented`).

What the object hands to `munmap` and `mremap` is the length of the segment, though. `Owned` says
that the segment needs as many pages as the region has, that the region is what is mapped for the
object, and that every call so far was for what was mapped then. `Map` and `Resize` keep this, and
`TurnNext` does when `Op.Whole` holds: a step inside a region of more than one page leaves a segment
of fewer pages, and a step to the next region sets the new size before the old region is unmapped.

The files may change between two calls.
-/

namespace CUtils.MappedFiles

open StateRun

variable {Path : Type} {page : Int}

/-! ## Events -/

inductive Event (Path : Type)
  | call (op : Op Path)
  /-- Another process is at the files. -/
  | outside (files : Files Path)

/-! ## The segment -/

structure Segment (page : Int) (m : MappedFile Path) : Prop where
  isNormed : m.isNormed = true
  pos : 0 < m.size
  aligned : page ∣ m.rStart
  start_pos : 0 < m.rStart
  start_le : m.rStart ≤ m.data
  le_end : m.data + m.size ≤ m.rEnd + 1

def Segmented (page : Int) (s : State Path) : Prop := s.obj.isMapped = true → Segment page s.obj

theorem Segment.last {m : MappedFile Path} (h : Segment page m) : m.last = m.data + m.size - 1 := by
  have hne : m.data ≠ 0 := (h.start_pos.trans_le h.start_le).ne'
  rw [MappedFile.last, if_neg hne]

theorem Segmented.of_unmapped {s : State Path} (h : s.obj.isMapped = false) : Segmented page s :=
  fun hm => absurd (h.symm.trans hm) (by simp)

theorem Segmented.of_eq {s s' : State Path} (h : Segmented page s) (hobj : s'.obj = s.obj) :
    Segmented page s' := by
  unfold Segmented
  rw [hobj]
  exact h

/-- An object that has just been mapped, with this memory before. -/
structure MappedAt (page : Int) (memory : Memory) (s : State Path) (place : Nat) : Prop where
  isMapped : s.obj.isMapped = true
  isNormed : s.obj.isNormed = true
  pos : 0 < s.obj.size
  aligned : page ∣ s.obj.offset
  rStart : s.obj.rStart = (place + 1) * page
  rEnd : s.obj.rEnd = (place + 1) * page + (roundSize page s.obj.size - 1)
  data : s.obj.data = (place + 1) * page
  memory : s.memory = { memory with
    held := fun x => memory.held x ||
      decide ((place + 1) * page ≤ x ∧ x < (place + 1) * page + roundSize page s.obj.size)
    base := s.obj.offset }

theorem place_pos (hpage : 0 < page) (place : Nat) : 0 < ((place : Int) + 1) * page :=
  Int.mul_pos (by omega) hpage

theorem MappedAt.segment (hpage : 0 < page) {memory : Memory} {s : State Path} {place : Nat}
    (h : MappedAt page memory s place) : Segment page s.obj where
  isNormed := h.isNormed
  pos := h.pos
  aligned := by rw [h.rStart]; exact Dvd.intro_left _ rfl
  start_pos := by rw [h.rStart]; exact place_pos hpage place
  start_le := by rw [h.rStart, h.data]
  le_end := by
    rw [h.data, h.rEnd]
    have hle := le_roundSize hpage h.pos.le
    omega

/-- The object in the end of a `Resize(newSize, sync)`. -/
theorem Segment.resized (hpage : 0 < page) {m m' : MappedFile Path} (h : Segment page m) {size : Int}
    (hsize : 0 < size) {place : Nat}
    (hm' : m' = { m with
      rStart := (place + 1) * page
      size := size
      rEnd := (place + 1) * page + roundSize page size - 1
      data := (place + 1) * page }) : Segment page m' := by
  subst hm'
  refine ⟨h.isNormed, hsize, Dvd.intro_left _ rfl, place_pos hpage place, le_rfl, ?_⟩
  show (place + 1) * page + size ≤ (place + 1) * page + roundSize page size - 1 + 1
  have hle := le_roundSize hpage hsize.le
  omega

/-- A step inside the region leaves a segment in it. -/
theorem Segment.turnSegment {s : State Path} (h : Segment page s.obj)
    (hlast : s.obj.last ≠ s.obj.rEnd) : Segment page s.turnSegment.2.obj := by
  have hpos := h.pos
  have hstart := h.start_le
  have hend := h.le_end
  rw [h.last] at hlast
  refine ⟨h.isNormed, ?_, h.aligned, h.start_pos, ?_, ?_⟩
  · show 0 < if s.obj.last + s.obj.size > s.obj.rEnd then s.obj.rEnd - s.obj.last else s.obj.size
    rw [h.last]
    split <;> omega
  · show s.obj.rStart ≤ s.obj.data + s.obj.size
    omega
  · show s.obj.data + s.obj.size + (if s.obj.last + s.obj.size > s.obj.rEnd then
      s.obj.rEnd - s.obj.last else s.obj.size) ≤ s.obj.rEnd + 1
    rw [h.last]
    split <;> omega

theorem normalize_memory (hpage : 0 < page) (s : State Path) :
    (s.normalize page).2.memory = s.memory := by
  rcases State.normalize_cases hpage s with ⟨-, hrun⟩ | ⟨-, -, hp, -⟩ | ⟨-, -, hp, -⟩
  · rw [hrun]
  · exact hp.memory
  · exact hp.memory

/-- The memory when `TurnNext` has unmapped the region. -/
def State.left (page : Int) (s : State Path) (stSize : Int) : Memory :=
  { State.noted page (s.turned stSize) with held := State.freed page (s.turned stSize) }

section Mapping

variable [DecidableEq Path]

/-- **An unmapped object is mapped, or nothing has been done for it.** -/
theorem map_mapped (hpage : 0 < page) {s : State Path} (hm : s.obj.isMapped = false) :
    ((s.map page).2.obj.isMapped = false ∧ (s.map page).2.memory = s.memory) ∨
      ∃ place, MappedAt page s.memory (s.map page).2 place := by
  by_cases hok : (s.map page).1 = .ok
  · rcases State.map_cases hpage s with ⟨hm', -⟩ | ⟨-, hval, hrun⟩ | ⟨-, hgood, hrest⟩
    · exact absurd (hm.symm.trans hm') (by simp)
    · rw [hrun, hval] at hok
      exact absurd hok (by simp)
    · rcases hrest with ⟨-, hrun⟩ | ⟨-, ⟨-, hrun⟩ | ⟨address, haddress, hrun⟩⟩
      · rw [hrun] at hok
        exact absurd hok (by simp)
      · rw [hrun] at hok
        exact absurd hok (by simp)
      · have hopened : (s.normalize page).2.opened.2.obj.isNormed = true ∧
            (s.normalize page).2.opened.2.memory = s.memory := by
          have hnormed := normalize_isNormed hpage hgood
          have hmemory := normalize_memory hpage s
          unfold State.opened
          split
          · rcases State.openFile_cases (s.normalize page).2 with ⟨-, hup⟩ | ⟨-, fd, hop⟩
            · rw [hup.obj, hup.memory]
              exact ⟨hnormed, hmemory⟩
            · rw [hop.obj, hop.memory]
              exact ⟨hnormed, hmemory⟩
          · exact ⟨hnormed, hmemory⟩
        obtain ⟨⟨hint, hobj⟩, -, ⟨hnone, -⟩ | ⟨place, hsome, hpos, haligned, hmemory⟩⟩ :=
          State.tryMap_cases page (s.normalize page).2.opened.2
        · rw [haddress] at hnone
          exact absurd hnone (by simp)
        · obtain rfl := Option.some.inj (haddress.symm.trans hsome)
          rw [hrun]
          refine Or.inr ⟨place, rfl, ?_, ?_, ?_, rfl, rfl, rfl, ?_⟩
          · show ((s.normalize page).2.opened.2.tryMap page).2.obj.isNormed = true
            rw [hobj]
            exact hopened.1
          · show 0 < ((s.normalize page).2.opened.2.tryMap page).2.obj.size
            rw [hobj]
            exact hpos
          · show page ∣ ((s.normalize page).2.opened.2.tryMap page).2.obj.offset
            rw [hobj]
            exact haligned
          · show ((s.normalize page).2.opened.2.tryMap page).2.memory = _
            simp only [hmemory, hopened.2, State.setRegion, hobj]
  · exact Or.inl (map_failed hpage hm hok)

/-- **What becomes of the region at its end.** -/
theorem turnRegion_mapped (hpage : 0 < page) {s : State Path} {stSize : Int}
    (hm : s.obj.isMapped = true) (hn : s.obj.isNormed = true) :
    ((s.turnRegion page stSize).2.obj = s.obj ∧
        (s.turnRegion page stSize).2.memory = State.noted page (s.turned stSize)) ∨
      ((s.turnRegion page stSize).2.obj.isMapped = false ∧
        (s.turnRegion page stSize).2.memory = s.left page stSize) ∨
      ∃ place, MappedAt page (s.left page stSize) (s.turnRegion page stSize).2 place := by
  rcases State.turnRegion_cases s stSize hm hn with ⟨hobj, hmemory, -⟩ |
    ⟨u, huobj, humemory, -, hmap⟩
  · exact Or.inl ⟨hobj, hmemory⟩
  · have hum : u.obj.isMapped = false := by rw [huobj]
    refine Or.inr ?_
    rcases hmap with ⟨-, heq⟩ | ⟨hfail, heq⟩
    · rw [heq, State.left, ← humemory]
      exact map_mapped hpage hum
    · rw [heq, State.left, ← humemory]
      exact Or.inl (map_failed hpage hum hfail)

/-! ### Every step keeps the segment in the region -/

omit [DecidableEq Path] in
theorem Segmented.unmap {s : State Path} (h : Segmented page s) : Segmented page (s.unmap page).2 := by
  obtain ⟨-, ⟨-, hrun⟩ | ⟨-, -, hobj, -⟩ | ⟨-, -, hobj, -⟩⟩ := State.unmap_cases page s
  · rw [hrun]
    exact h
  · exact h.of_eq hobj
  · exact Segmented.of_unmapped (by rw [hobj])

omit [DecidableEq Path] in
theorem Segmented.stable : State.Stable page fun s : State Path => Segmented page s where
  same h hobj _ _ := h.of_eq hobj
  params _ _ hp := Segmented.of_unmapped hp.isMapped
  unmap h := h.unmap
  gone _ hg := Segmented.of_unmapped hg.isMapped

theorem Segmented.map (hpage : 0 < page) {s : State Path} (h : Segmented page s) :
    Segmented page (s.map page).2 := by
  cases hm : s.obj.isMapped with
  | true =>
      rw [State.map, if_pos hm]
      exact h
  | false =>
      rcases map_mapped hpage hm with ⟨hm', -⟩ | ⟨place, hat⟩
      · exact Segmented.of_unmapped hm'
      · exact fun _ => hat.segment hpage

omit [DecidableEq Path] in
theorem Segmented.normalize (hpage : 0 < page) {s : State Path} (h : Segmented page s) :
    Segmented page (s.normalize page).2 := by
  cases hm : s.obj.isMapped with
  | true =>
      rw [State.normalize, if_pos (h hm).isNormed]
      exact h
  | false => exact Segmented.of_unmapped ((normalize_isMapped hpage s).trans hm)

omit [DecidableEq Path] in
theorem Segmented.resize (hpage : 0 < page) {s : State Path} (h : Segmented page s) (newSize : Int)
    (sync : Bool) : Segmented page (s.resize page newSize sync).2 := by
  rcases State.resize_cases hpage s newSize sync with ⟨hobj, -⟩ | ⟨hm, -, size, hsize, -, hcases⟩
  · exact h.of_eq hobj
  · rcases hcases with ⟨hobj, -⟩ | ⟨place, hobj, -⟩
    · exact h.of_eq hobj
    · exact fun _ => (h hm).resized hpage hsize hobj

theorem Segmented.turnNext (hpage : 0 < page) {s : State Path} (h : Segmented page s) :
    Segmented page (s.turnNext page).2 := by
  rcases State.turnNext_cases page s with ⟨hobj, -⟩ | ⟨hn, inode, -, -, -, hcases⟩
  · exact h.of_eq hobj
  · rcases hcases with ⟨hm, -, -, hobj⟩ | ⟨hm, hlast, hobj, -⟩ | ⟨hm, -, q, hqobj, -, -, hrun⟩
    · exact Segmented.of_unmapped (by rw [hobj]; exact hm)
    · intro _
      rw [hobj]
      exact (h hm).turnSegment hlast
    · rw [hrun]
      rw [← hqobj] at hm hn
      rcases turnRegion_mapped hpage hm hn with ⟨hobj, -⟩ | ⟨hm', -⟩ | ⟨place, hat⟩
      · exact h.of_eq (hobj.trans hqobj)
      · exact Segmented.of_unmapped hm'
      · exact fun _ => hat.segment hpage

theorem Segmented.step (hpage : 0 < page) {s : State Path} (h : Segmented page s) (empty : Path)
    (op : Op Path) : Segmented page (s.step page empty op) :=
  Segmented.stable.step h empty op (h.normalize hpage) (fun _ => h.map hpage)
    (fun newSize sync _ => h.resize hpage newSize sync) fun _ => h.turnNext hpage

end Mapping

/-! ## The region -/

/-- **What is mapped is the region, and what was unmapped was what was mapped.** -/
structure Exact (s : State Path) : Prop where
  held : ∀ x, s.memory.held x = true ↔
    s.obj.isMapped = true ∧ s.obj.rStart ≤ x ∧ x ≤ s.obj.rEnd
  calls : ∀ c ∈ s.memory.calls, ∀ x, c.held x = true ↔ c.start ≤ x ∧ x < c.stop

structure Owned (page : Int) (s : State Path) : Prop extends Exact s where
  segment : Segmented page s
  whole : s.obj.isMapped = true → s.obj.rEnd + 1 = s.obj.rStart + roundSize page s.obj.size

theorem Owned.of_eq {s s' : State Path} (h : Owned page s) (hobj : s'.obj = s.obj)
    (hmemory : s'.memory = s.memory) : Owned page s' where
  held := by rw [hobj, hmemory]; exact h.held
  calls := by rw [hmemory]; exact h.calls
  segment := h.segment.of_eq hobj
  whole := by rw [hobj]; exact h.whole

theorem Owned.of_unmapped {s : State Path} (hm : s.obj.isMapped = false)
    (hheld : ∀ x, s.memory.held x = false)
    (hcalls : ∀ c ∈ s.memory.calls, ∀ x, c.held x = true ↔ c.start ≤ x ∧ x < c.stop) :
    Owned page s where
  held x := by simp [hm, hheld x]
  calls := hcalls
  segment := Segmented.of_unmapped hm
  whole hm' := absurd (hm.symm.trans hm') (by simp)

/-- Nothing is mapped for an object that is not mapped. -/
theorem Exact.held_eq_false {s : State Path} (h : Exact s) (hm : s.obj.isMapped = false) (x : Int) :
    s.memory.held x = false := by
  have hx := h.held x
  rw [hm] at hx
  simpa using hx

theorem Owned.held_iff {s : State Path} (h : Owned page s) (hm : s.obj.isMapped = true) (x : Int) :
    s.memory.held x = true ↔
      s.obj.rStart ≤ x ∧ x < s.obj.rStart + roundSize page s.obj.size := by
  have hwhole := h.whole hm
  rw [h.held x]
  constructor
  · rintro ⟨-, hle, hlt⟩
    exact ⟨hle, by omega⟩
  · rintro ⟨hle, hlt⟩
    exact ⟨hm, hle, by omega⟩

/-- A call for the region, with a size that needs as many pages as the segment does. -/
theorem Owned.noted {s q : State Path} (h : Owned page s) (hm : s.obj.isMapped = true)
    (hstart : q.obj.rStart = s.obj.rStart) (hmemory : q.memory = s.memory)
    (hsize : roundSize page q.obj.size = roundSize page s.obj.size) :
    ∀ c ∈ (State.noted page q).calls, ∀ x, c.held x = true ↔ c.start ≤ x ∧ x < c.stop := by
  intro c hc
  rcases List.mem_cons.1 hc with rfl | hc
  · intro x
    show q.memory.held x = true ↔
      q.obj.rStart ≤ x ∧ x < q.obj.rStart + roundSize page q.obj.size
    rw [hstart, hmemory, hsize]
    exact h.held_iff hm x
  · rw [hmemory] at hc
    exact h.calls c hc

theorem Owned.freed {s q : State Path} (h : Owned page s) (hm : s.obj.isMapped = true)
    (hstart : q.obj.rStart = s.obj.rStart) (hmemory : q.memory = s.memory)
    (hsize : roundSize page q.obj.size = roundSize page s.obj.size) (x : Int) :
    State.freed page q x = false := by
  rw [State.freed, hstart, hmemory, hsize]
  cases hx : s.memory.held x with
  | false => rfl
  | true => simp [(h.held_iff hm x).1 hx]

/-- A region that has been mapped where nothing was. -/
theorem Owned.of_mappedAt (hpage : 0 < page) {memory : Memory} {s : State Path} {place : Nat}
    (h : MappedAt page memory s place)
    (hheld : ∀ x, memory.held x = false)
    (hcalls : ∀ c ∈ memory.calls, ∀ x, c.held x = true ↔ c.start ≤ x ∧ x < c.stop) :
    Owned page s where
  held x := by
    rw [h.memory, h.rStart, h.rEnd, h.isMapped]
    simp only [hheld x, Bool.false_or, decide_eq_true_eq, true_and]
    omega
  calls := by rw [h.memory]; exact hcalls
  segment _ := h.segment hpage
  whole _ := by rw [h.rStart, h.rEnd]; omega

theorem Owned.of_left {s s' : State Path} (h : Owned page s) (hm : s.obj.isMapped = false)
    (hm' : s'.obj.isMapped = false) (hmemory : s'.memory = s.memory) : Owned page s' :=
  Owned.of_unmapped hm' (by rw [hmemory]; exact h.held_eq_false hm)
    (by rw [hmemory]; exact h.calls)

/-- A call for the region has failed. -/
theorem Owned.of_noted {s s' q : State Path} (h : Owned page s) (hm : s.obj.isMapped = true)
    (hobj : s'.obj = s.obj) (hmemory : s'.memory = State.noted page q)
    (hstart : q.obj.rStart = s.obj.rStart) (hqmemory : q.memory = s.memory)
    (hsize : roundSize page q.obj.size = roundSize page s.obj.size) : Owned page s' where
  held := by rw [hobj, hmemory, State.noted, hqmemory]; exact h.held
  calls := by rw [hmemory]; exact h.noted hm hstart hqmemory hsize
  segment := h.segment.of_eq hobj
  whole := by rw [hobj]; exact h.whole

theorem Owned.unmap {s : State Path} (h : Owned page s) : Owned page (s.unmap page).2 := by
  obtain ⟨-, ⟨-, hrun⟩ | ⟨hm, -, hobj, hmemory⟩ | ⟨hm, -, hobj, hmemory⟩⟩ :=
    State.unmap_cases page s
  · rw [hrun]
    exact h
  · exact h.of_noted hm hobj hmemory rfl rfl rfl
  · refine Owned.of_unmapped (by rw [hobj]) ?_ ?_
    · rw [hmemory]
      exact h.freed hm rfl rfl rfl
    · rw [hmemory]
      exact h.noted hm rfl rfl rfl

theorem Owned.stable : State.Stable page fun s : State Path => Owned page s where
  same h hobj hmemory _ := h.of_eq hobj hmemory
  params h hm hp := h.of_left hm hp.isMapped hp.memory
  unmap h := h.unmap
  gone h hg := Owned.of_unmapped hg.isMapped (by rw [hg.memory]; exact fun _ => rfl)
    (by rw [hg.memory]; exact h.calls)

theorem Owned.normalize (hpage : 0 < page) {s : State Path} (h : Owned page s) :
    Owned page (s.normalize page).2 := by
  cases hm : s.obj.isMapped with
  | true =>
      rw [State.normalize, if_pos (h.segment hm).isNormed]
      exact h
  | false => exact h.of_left hm ((normalize_isMapped hpage s).trans hm) (normalize_memory hpage s)

theorem Owned.resize (hpage : 0 < page) {s : State Path} (h : Owned page s) (newSize : Int)
    (sync : Bool) : Owned page (s.resize page newSize sync).2 := by
  have hsegment := h.segment.resize hpage newSize sync
  rcases State.resize_cases hpage s newSize sync with ⟨hobj, hmemory, -⟩ |
    ⟨hm, -, size, -, -, ⟨hobj, hmemory⟩ | ⟨place, hobj, hmemory⟩⟩
  · exact h.of_eq hobj hmemory
  · exact h.of_noted hm hobj hmemory rfl rfl rfl
  · refine ⟨⟨fun x => ?_, ?_⟩, hsegment, ?_⟩
    · rw [hobj, hmemory]
      simp only [h.freed hm rfl rfl rfl x, Bool.false_or, decide_eq_true_eq, hm, true_and]
      omega
    · rw [hmemory]
      exact h.noted hm rfl rfl rfl
    · rw [hobj]
      intro _
      show (place + 1) * page + roundSize page size - 1 + 1 = (place + 1) * page + roundSize page size
      omega

/-! ## Turning -/

/-- The length of the region. -/
def MappedFile.regionSize (m : MappedFile Path) : Int := m.rEnd - m.rStart + 1

/-- `TurnNext` leaves the size with as many pages as the region has: if it stays in the region, that
is one page, and if it leaves it, what is left of the file needs no fewer. -/
def Op.Whole (page : Int) (s : State Path) : Op Path → Prop
  | .turnNext => s.obj.isMapped = true → ∀ stSize, s.stat.1 = some stSize →
      s.obj.endOffset + 1 < stSize →
      if s.obj.last = s.obj.rEnd then s.obj.regionSize - page < stSize - (s.obj.endOffset + 1)
      else s.obj.regionSize = page
  | _ => True

theorem Owned.turnSegment (hpage : 0 < page) {s : State Path} (h : Owned page s)
    (hm : s.obj.isMapped = true) (hlast : s.obj.last ≠ s.obj.rEnd)
    (hsize : s.obj.regionSize = page) : Owned page s.turnSegment.2 where
  held := h.held
  calls := h.calls
  segment _ := (h.segment hm).turnSegment hlast
  whole _ := by
    have hsegment := (h.segment hm).turnSegment hlast
    have hpos := hsegment.pos
    have hstart := hsegment.start_le
    have hend := hsegment.le_end
    have hround := roundSize_eq_of_dvd hpage hpos.le (Int.dvd_refl page)
    unfold MappedFile.regionSize at hsize
    change s.obj.rStart ≤ s.turnSegment.2.obj.data at hstart
    change s.turnSegment.2.obj.data + _ ≤ s.obj.rEnd + 1 at hend
    show s.obj.rEnd + 1 = s.obj.rStart + roundSize page s.turnSegment.2.obj.size
    rw [hround (by omega) (by omega)]
    omega

/-- The next size needs as many pages as the region has. -/
theorem Owned.roundSize_nextSize (hpage : 0 < page) {s : State Path} (h : Owned page s)
    (hm : s.obj.isMapped = true) {stSize : Int} (hend : s.obj.endOffset + 1 < stSize)
    (hrest : s.obj.regionSize - page < stSize - (s.obj.endOffset + 1)) :
    roundSize page (s.nextSize stSize) = roundSize page s.obj.size := by
  have hsegment := h.segment hm
  have hpos := hsegment.pos
  have hwhole := h.whole hm
  have hlt := roundSize_lt hpage hpos.le
  have hle := le_roundSize hpage hpos.le
  unfold MappedFile.regionSize at hrest
  have hnext : s.nextSize stSize ≤ s.obj.size ∧ 0 < s.nextSize stSize ∧
      roundSize page s.obj.size < s.nextSize stSize + page := by
    unfold State.nextSize
    split
    · refine ⟨?_, ?_, ?_⟩ <;> omega
    · exact ⟨le_rfl, hpos, hlt⟩
  exact roundSize_eq_of_dvd hpage hnext.2.1.le (dvd_roundSize hpos.le) (hnext.1.trans hle) hnext.2.2

def Event.Whole (page : Int) (s : State Path) : Event Path → Prop
  | .call op => op.Whole page s
  | .outside _ => True

theorem owned_new (path : Path) (files : Files Path) (answers : Nat → Answer) :
    Owned page (State.new path files answers) :=
  Owned.of_unmapped rfl (fun _ => rfl) fun _ hc => absurd hc (by simp [State.new])

variable [DecidableEq Path]

theorem Owned.map (hpage : 0 < page) {s : State Path} (h : Owned page s) :
    Owned page (s.map page).2 := by
  cases hm : s.obj.isMapped with
  | true =>
      rw [State.map, if_pos hm]
      exact h
  | false =>
      rcases map_mapped hpage hm with ⟨hm', hmemory⟩ | ⟨place, hat⟩
      · exact h.of_left hm hm' hmemory
      · exact Owned.of_mappedAt hpage hat (h.held_eq_false hm) h.calls

theorem Owned.turnRegion (hpage : 0 < page) {s : State Path} (h : Owned page s)
    (hm : s.obj.isMapped = true) {stSize : Int} (hend : s.obj.endOffset + 1 < stSize)
    (hrest : s.obj.regionSize - page < stSize - (s.obj.endOffset + 1)) :
    Owned page (s.turnRegion page stSize).2 := by
  have hround := h.roundSize_nextSize hpage hm hend hrest
  have hcalls := h.noted (q := s.turned stSize) hm rfl rfl hround
  have hfreed := h.freed (q := s.turned stSize) hm rfl rfl hround
  rcases turnRegion_mapped hpage hm (h.segment hm).isNormed with ⟨hobj, hmemory⟩ |
    ⟨hm', hmemory⟩ | ⟨place, hat⟩
  · exact h.of_noted hm hobj hmemory rfl rfl hround
  · exact Owned.of_unmapped hm' (by rw [hmemory]; exact hfreed) (by rw [hmemory]; exact hcalls)
  · exact Owned.of_mappedAt hpage hat hfreed hcalls

theorem Owned.turnNext (hpage : 0 < page) {s : State Path} (h : Owned page s)
    (hwhole : Op.Whole page s .turnNext) : Owned page (s.turnNext page).2 := by
  rcases State.turnNext_cases page s with ⟨hobj, hmemory, -⟩ |
    ⟨hn, inode, -, hstat, hend, hcases⟩
  · exact h.of_eq hobj hmemory
  · rcases hcases with ⟨hm, hmemory, -, hobj⟩ | ⟨hm, hlast, hobj, hmemory, -⟩ |
      ⟨hm, hlast, q, hqobj, hqmemory, -, hrun⟩
    · exact h.of_left hm (by rw [hobj]; exact hm) hmemory
    · have hsize := hwhole hm _ hstat hend
      rw [if_neg hlast] at hsize
      exact (h.turnSegment hpage hm hlast hsize).of_eq hobj hmemory
    · have hsize := hwhole hm _ hstat hend
      rw [if_pos hlast, ← hqobj] at hsize
      rw [hrun]
      rw [← hqobj] at hm hend
      exact (h.of_eq hqobj hqmemory).turnRegion hpage hm hend hsize

theorem Owned.step (hpage : 0 < page) {s : State Path} (h : Owned page s) (empty : Path)
    {op : Op Path} (hwhole : op.Whole page s) : Owned page (s.step page empty op) :=
  Owned.stable.step h empty op (h.normalize hpage) (fun _ => h.map hpage)
    (fun newSize sync _ => h.resize hpage newSize sync) fun hop => by
      subst hop
      exact h.turnNext hpage hwhole

/-! ## Runs among other processes -/

def State.see (page : Int) (empty : Path) (s : State Path) : Event Path → State Path
  | .call op => s.step page empty op
  | .outside files => { s with files := files }

/-- **What is mapped is what is unmapped**, in every run in which the turns are whole. -/
theorem region_exact (hpage : 0 < page) (empty path : Path) (files : Files Path)
    (answers : Nat → Answer) {events : List (Event Path)}
    (hwhole : Along (Event.Whole page) (State.see page empty) (State.new path files answers) events) :
    Exact (events.foldl (State.see page empty) (State.new path files answers)) := by
  refine (Along.invariant (I := Owned page) (fun s event hevent h => ?_) hwhole
    (owned_new path files answers)).toExact
  cases event with
  | call op => exact h.step hpage empty hevent
  | outside files => exact h.of_eq rfl rfl

/-- A file of two pages, turned page by page. -/
theorem region_exact_pages :
    Exact ([.call (.construct true 0 0 4096 0), .call .map, .call .turnNext,
      .call (.resize 8192 true), .outside World.twoPaths, .call .unmap].foldl
        (State.see 4096 false) (State.new false World.twoPaths World.granted)) := by
  refine region_exact (by decide) false false World.twoPaths World.granted
    ⟨trivial, trivial, fun _ stSize hstat _ => ?_, trivial, trivial, trivial, trivial⟩
  obtain rfl : 8192 = stSize := Option.some.inj hstat
  decide +kernel

/-- **A segment for the region.** The first 5000 bytes of the file are mapped, two pages; turned to
the rest of the second page, the object unmaps one. -/
theorem turned_region_left :
    ¬ Exact ([.call (.construct true 0 0 5000 0), .call .map, .call .turnNext, .call .unmap].foldl
      (State.see 4096 false) (State.new false World.twoPaths World.granted)) := by
  intro h
  have hheld := h.held (5 * 4096)
  revert hheld
  decide +kernel

end CUtils.MappedFiles
