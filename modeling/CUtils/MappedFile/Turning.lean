import CUtils.MappedFile.Success
import CUtils.MappedFile.Segment

/-!
# Turning, unmapping and mapping again

`TurnNext` at the end of a region unmaps it and maps the next one with parameters that have to be
normalized again. Asked for nothing but good things the system lets an object go through its whole
file in this way (`Paging`). The rest of the module is about what else may come of it: the second
half of the call may fail when the first has succeeded, and then the region is gone; and a segment
that does not start at a page cannot be mapped again once it has been unmapped.
-/

namespace CUtils.MappedFiles

open StateRun

variable {Path : Type} {page : Int}

/-! ## At the end of a region -/

/-- `TurnNext` is going to leave its region: there is more of the file behind it. -/
structure Leaving (s : State Path) (stSize : Int) : Prop where
  isMapped : s.obj.isMapped = true
  isNormed : s.obj.isNormed = true
  last : s.obj.last = s.obj.rEnd
  stat : s.stat.1 = some stSize
  more : s.obj.endOffset + 1 < stSize

/-- The next region can be mapped, with the calls that `Map` makes to come next. -/
def NextMappable (page : Int) (s : State Path) (n : Nat) : Prop :=
  page ∣ s.obj.offset + s.obj.size ∧ (s.answers n).ok = true ∧ (s.answers (n + 1)).ok = true ∧
    ((s.answers (n + 2)).ok = true ∨ (s.answers (n + 3)).ok = true)

theorem endOffset_add_one {m : MappedFile Path} (hpos : 0 < m.size) :
    m.endOffset + 1 = m.offset + m.size := by
  rw [MappedFile.endOffset, if_neg (lt_trans (by decide) hpos).ne']
  omega

/-- The next segment is within the file. -/
theorem nextSize_within {s : State Path} (hpos : 0 < s.obj.size) {stSize : Int}
    (hmore : s.obj.endOffset + 1 < stSize) :
    0 < s.nextSize stSize ∧ s.obj.offset + s.obj.size + s.nextSize stSize ≤ stSize := by
  have hend := endOffset_add_one hpos
  unfold State.nextSize
  split <;> omega

variable [DecidableEq Path]

variable (page) in
theorem turnNext_leaving {s : State Path} {stSize : Int} (h : Leaving s stSize) :
    s.turnNext page = s.ask.2.turnRegion page stSize := by
  have hstat : s.stat = (some stSize, s.ask.2) := Prod.ext h.stat rfl
  have hmore := h.more
  have hend : ¬ (s.ask.2.obj.endOffset + 1 ≥ stSize) := by
    rw [State.ask_obj]
    omega
  rw [State.turnNext, if_neg (by simp [h.isNormed]), hstat]
  simp only
  rw [if_neg hend, if_pos (show s.ask.2.obj.isMapped = true from h.isMapped),
    if_pos (show s.ask.2.obj.last = s.ask.2.obj.rEnd from h.last)]

/-- **What the calls decide at the end of a region**: the region stays if it cannot be unmapped, and
is gone if the next one cannot be mapped. -/
theorem turnRegion_answers (hpage : 0 < page) {s : State Path} (h : Ready page s)
    (hm : s.obj.isMapped = true) {inode : Nat} (hinode : s.files.inode s.obj.path = some inode)
    (hmore : s.obj.endOffset + 1 < s.files.size inode) :
    ((s.turnRegion page (s.files.size inode)).1 = .ok ↔
        (s.answers 0).ok = true ∧ NextMappable page s 1) ∧
      ((s.answers 0).ok = false → (s.turnRegion page (s.files.size inode)).2.obj = s.obj) ∧
      ((s.answers 0).ok = true → ¬ NextMappable page s 1 →
        (s.turnRegion page (s.files.size inode)).2.obj.isMapped = false) ∧
      ((s.turnRegion page (s.files.size inode)).1 = .ok → ∃ u : State Path,
        u.obj = { (s.turned (s.files.size inode)).obj with
          rStart := 0, rEnd := 0, data := 0, isMapped := false } ∧
        u.files = s.files ∧ u.answers = (fun n => s.answers (n + 1)) ∧ (u.map page).1 = .ok ∧
        (s.turnRegion page (s.files.size inode)).2 = (u.map page).2) := by
  have hsegment := h.segment hm
  have hn := hsegment.isNormed
  obtain ⟨hnext, hwithin⟩ := nextSize_within hsegment.pos hmore
  have hrun : s.turnRegion page (s.files.size inode) =
      (let u := (s.turned (s.files.size inode)).unmap page
       let r := if u.1 = .ok then u.2.remap page else u
       if r.1 ≠ .ok then (r.1, State.restored s r.2) else r) := rfl
  obtain ⟨hok, hanswers⟩ := State.unmap_ok_iff (s := s.turned (s.files.size inode)) hm hnext
    hsegment.aligned
  obtain ⟨hfiles, hcases⟩ := State.unmap_cases page (s.turned (s.files.size inode))
  rw [hrun]
  set u := (s.turned (s.files.size inode)).unmap page
  rcases hcases with ⟨hnot, -⟩ | ⟨-, hfail, hobj, -⟩ | ⟨-, hyes, hobj, -⟩
  · exact absurd (hm.symm.trans hnot) (by simp)
  · have hno : ¬ (s.answers 0).ok = true := fun hyes => by
      rw [hfail] at hok
      exact absurd (hok.2 hyes) (by simp)
    simp only [hfail, reduceCtorEq, if_false, ne_eq, not_false_eq_true, if_true, false_iff]
    refine ⟨fun hyes => hno hyes.1, fun _ => ?_, fun hyes => absurd hyes hno, False.elim⟩
    rw [State.restored, hobj]
    simp only [State.turned]
    rw [← hn]
  · have hask : (s.answers 0).ok = true := hok.1 hyes
    have hum : u.2.obj.isMapped = false := by rw [hobj]
    have hremap : u.2.remap page = u.2.map page := by
      rw [State.remap, if_neg (by rw [hum]; simp)]
    have hmap : (u.2.map page).1 = .ok ↔ NextMappable page s 1 := by
      have hoffset := h.offset hn
      have hpos := hsegment.pos
      have hiff := State.map_ok_iff_of_within hpage hum
        (by rw [hobj]; exact h.fd hm) (by rw [hobj]; rfl) (by rw [hobj]; exact hnext)
        (by rw [hobj]; show 0 ≤ s.obj.offset + s.obj.size; omega) inode
        (by rw [hobj, hfiles]; exact hinode) (by rw [hobj, hfiles]; exact hwithin)
        (by rw [hobj]; exact hsegment.start_pos.ne')
      rw [hiff, hanswers, hobj]
      exact Iff.rfl
    simp only [hyes, if_true, hremap]
    by_cases hyes' : (u.2.map page).1 = .ok
    · rw [if_neg (by simpa using hyes')]
      refine ⟨⟨fun _ => ⟨hask, hmap.1 hyes'⟩, fun _ => hyes'⟩, fun hno => ?_, fun _ hno => ?_,
        fun _ => ⟨u.2, hobj, hfiles, hanswers, hyes', rfl⟩⟩
      · exact absurd (hask.symm.trans hno) (by simp)
      · exact absurd (hmap.1 hyes') hno
    · rw [if_pos hyes']
      refine ⟨⟨fun h => absurd h hyes', fun h => absurd (hmap.2 h.2) hyes'⟩, fun hno => ?_,
        fun _ _ => (map_failed hpage hum hyes').1, fun h => absurd h hyes'⟩
      exact absurd (hask.symm.trans hno) (by simp)

/-! ## A call that fails -/

/-- What the object shows of itself. -/
structure SameView (m m' : MappedFile Path) : Prop where
  isMapped : m'.isMapped = m.isMapped
  first : m'.data = m.data
  last : m'.last = m.last
  rStart : m'.rStart = m.rStart
  rEnd : m'.rEnd = m.rEnd
  size : m'.size = m.size
  offset : m'.offset = m.offset
  hint : m'.hint = m.hint
  isNormed : m'.isNormed = m.isNormed

omit [DecidableEq Path] in
theorem SameView.of_eq {m m' : MappedFile Path} (h : m' = m) : SameView m m' := by
  subst h
  exact ⟨rfl, rfl, rfl, rfl, rfl, rfl, rfl, rfl, rfl⟩

variable (page) in
/-- Outside the end of a region `TurnNext` either succeeds or has done nothing. -/
theorem turnNext_of_not_leaving {s : State Path} (h : ∀ stSize, ¬ Leaving s stSize) :
    (s.turnNext page).1 = .ok ∨ (s.turnNext page).2.obj = s.obj := by
  unfold State.turnNext
  cases hn : s.obj.isNormed with
  | false => exact Or.inr rfl
  | true =>
      rw [if_neg (by simp)]
      rcases hst : s.stat with ⟨st, q⟩
      have hq : q.obj = s.obj := by
        have hq : q = s.stat.2 := by rw [hst]
        rw [hq]
        rfl
      cases st with
      | none => exact Or.inr hq
      | some stSize =>
          simp only
          by_cases hend : q.obj.endOffset + 1 ≥ stSize
          · rw [if_pos hend]
            exact Or.inr hq
          · rw [if_neg hend]
            by_cases hm : q.obj.isMapped = true
            · have hlast : ¬ q.obj.last = q.obj.rEnd := by
                rw [hq] at hend hm ⊢
                exact fun hlast => h stSize ⟨hm, hn, hlast, by rw [hst], by omega⟩
              rw [if_pos hm, if_neg hlast]
              exact Or.inl rfl
            · rw [if_neg hm]
              exact Or.inl rfl

/-- **When a `TurnNext` that fails has done nothing**: unless it has unmapped its region and cannot
map the next one. The object may be in any state that it gets into, with any calls failing before
and in this one. -/
theorem turnNext_atomic_iff (hpage : 0 < page) (empty path : Path) (files : Files Path)
    (answers : Nat → Answer) (events : List (Event Path)) :
    let s := events.foldl (State.see page empty) (State.new path files answers)
    ((s.turnNext page).1 ≠ .ok → SameView s.obj (s.turnNext page).2.obj) ↔
      ((∃ stSize, Leaving s stSize) → (s.answers 1).ok = true → NextMappable page s 2) := by
  intro s
  have hready : Ready page s := ready_foldl hpage empty path files answers events
  clear_value s
  by_cases hleaving : ∃ stSize, Leaving s stSize
  · obtain ⟨stSize, hleave⟩ := hleaving
    obtain ⟨inode, hinode, rfl⟩ := State.stat_eq_some hleave.stat
    obtain ⟨hok, hkept, hgone, -⟩ := turnRegion_answers (s := s.ask.2) hpage (hready.of_obj rfl)
      hleave.isMapped hinode hleave.more
    have hturn := turnNext_leaving page hleave
    rw [State.ask_files] at hok hkept hgone
    rw [← hturn] at hok hkept hgone
    constructor
    · intro hatomic _ hask
      by_contra hnot
      have hfail : (s.turnNext page).1 ≠ .ok := fun h => hnot (hok.1 h).2
      have hm := (hatomic hfail).isMapped
      rw [hgone hask hnot, hleave.isMapped] at hm
      exact absurd hm (by simp)
    · intro hgood hfail
      refine SameView.of_eq (hkept ?_)
      cases hask : (s.answers 1).ok with
      | false => exact hask
      | true => exact absurd (hok.2 ⟨hask, hgood ⟨_, hleave⟩ hask⟩) hfail
  · refine ⟨fun _ h => absurd h hleaving, fun _ hfail => ?_⟩
    rcases turnNext_of_not_leaving page (not_exists.1 hleaving) with hok | hobj
    · exact absurd hok hfail
    · exact SameView.of_eq hobj

/-- A system that grants the first `n` calls and no more. -/
def World.grantedUpTo (n k : Nat) : Answer := ⟨decide (k < n), k⟩

/-- At the end of its page an object stays there when `munmap` fails. -/
theorem turnNext_atomic_munmap :
    let s := [.call (.construct true 0 0 4096 0), .call .map].foldl (State.see 4096 false)
      (State.new false World.twoPaths (World.grantedUpTo 5))
    (s.turnNext 4096).1 = .failed ∧ SameView s.obj (s.turnNext 4096).2.obj := by
  intro s
  have hfail : (s.turnNext 4096).1 = .failed := by decide +kernel
  refine ⟨hfail, (turnNext_atomic_iff (by decide) false false World.twoPaths
    (World.grantedUpTo 5) [.call (.construct true 0 0 4096 0), .call .map]).2 (fun _ hask => ?_) ?_⟩
  · exact absurd hask (by decide +kernel)
  · show (s.turnNext 4096).1 ≠ .ok
    rw [hfail]
    simp

/-- **A region that is gone.** The first page of the file is unmapped and `mmap` fails for the
second one: the call has failed, and the object is no longer mapped. -/
theorem turned_to_nothing :
    let s := [.call (.construct true 0 0 4096 0), .call .map].foldl (State.see 4096 false)
      (State.new false World.twoPaths (World.grantedUpTo 8))
    (s.turnNext 4096).1 = .failed ∧ ¬ SameView s.obj (s.turnNext 4096).2.obj := by
  intro s
  refine ⟨by decide +kernel, fun h => ?_⟩
  have hm := h.isMapped
  revert hm
  decide +kernel

/-! ## Unmapping and mapping again -/

/-- `Unmap` and `Map` succeed, and the object shows the same range of the file as before. -/
structure Restores (page : Int) (s : State Path) : Prop where
  unmapped : (s.unmap page).1 = .ok
  mapped : ((s.unmap page).2.map page).1 = .ok
  isMapped : ((s.unmap page).2.map page).2.obj.isMapped = true
  offset : ((s.unmap page).2.map page).2.obj.offset = s.obj.offset
  size : ((s.unmap page).2.map page).2.obj.size = s.obj.size
  inPlace : InPlace ((s.unmap page).2.map page).2

/-- `Map` leaves the offset alone, and a size that has been normalized. -/
theorem map_params (hpage : 0 < page) (s : State Path) :
    (s.map page).2.obj.offset = s.obj.offset ∧
      (s.obj.isNormed = true → s.obj.fd ≠ none → (s.map page).2.obj.size = s.obj.size) := by
  have hn : (s.normalize page).2.obj.offset = s.obj.offset := by
    rcases State.normalize_cases hpage s with ⟨-, hrun⟩ | ⟨-, -, hp, -⟩ | ⟨-, -, hp, -⟩
    · rw [hrun]
    · exact hp.offset
    · exact hp.offset
  have hsame : s.obj.isNormed = true → s.obj.fd ≠ none →
      (s.normalize page).2.opened.2.obj.size = s.obj.size := by
    intro hnormed hfd
    have hrun : s.normalize page = (.invalidOperation, s) := by rw [State.normalize, if_pos hnormed]
    rw [hrun, State.opened, if_neg hfd]
  obtain ⟨-, -, hoffset, -⟩ := opened_obj (s.normalize page).2
  obtain ⟨⟨hint, hobj⟩, -, -⟩ := State.tryMap_cases page (s.normalize page).2.opened.2
  have htried : ((s.normalize page).2.opened.2.tryMap page).2.obj.offset = s.obj.offset ∧
      (s.obj.isNormed = true → s.obj.fd ≠ none →
        ((s.normalize page).2.opened.2.tryMap page).2.obj.size = s.obj.size) := by
    rw [hobj]
    exact ⟨hoffset.trans hn, hsame⟩
  rcases State.map_cases hpage s with ⟨-, hrun⟩ | ⟨-, hval, hrun⟩ | ⟨-, -, hrest⟩
  · rw [hrun]
    exact ⟨rfl, fun _ _ => rfl⟩
  · rw [hrun]
    refine ⟨hn, fun hnormed _ => ?_⟩
    rw [State.normalize, if_pos hnormed] at hval
    exact absurd hval (by simp)
  · rcases hrest with ⟨-, hrun⟩ | ⟨-, ⟨-, hrun⟩ | ⟨address, -, hrun⟩⟩
    · rw [hrun]
      exact ⟨hoffset.trans hn, hsame⟩
    · rw [hrun]
      exact htried
    · rw [hrun]
      exact htried

/-- **When a mapped object can be unmapped and mapped again**: when its segment starts at a page of
the file. The object may be in any state that it gets into; `munmap` and `mmap` fail for their
arguments only. -/
theorem unmap_map_iff (hpage : 0 < page) (empty path : Path) (files : Files Path)
    (answers : Nat → Answer) (events : List (Event Path)) :
    let s := events.foldl (State.see page empty) (State.new path files answers)
    s.obj.isMapped = true → (s.answers 0).ok = true → (s.answers 1).ok = true →
      (Restores page s ↔ page ∣ s.obj.offset) := by
  intro s hm hfirst hsecond
  have hready : Ready page s := ready_foldl hpage empty path files answers events
  clear_value s
  have hsegment := hready.segment hm
  obtain ⟨hok, hanswers⟩ := State.unmap_ok_iff hm hsegment.pos hsegment.aligned
  obtain ⟨-, ⟨hnot, -⟩ | ⟨-, hfail, -⟩ | ⟨-, -, hobj, -⟩⟩ := State.unmap_cases page s
  · exact absurd (hm.symm.trans hnot) (by simp)
  · rw [hok.2 hfirst] at hfail
    exact absurd hfail (by simp)
  · have hum : (s.unmap page).2.obj.isMapped = false := by rw [hobj]
    have hufd : (s.unmap page).2.obj.fd ≠ none := by rw [hobj]; exact hready.fd hm
    have hun : (s.unmap page).2.obj.isNormed = true := by rw [hobj]; exact hsegment.isNormed
    have hmap : ((s.unmap page).2.map page).1 = .ok ↔ page ∣ s.obj.offset := by
      rw [State.map_ok_iff_of_normed hpage hum hufd hun (by rw [hobj]; exact hsegment.pos),
        State.Mappable, hanswers, hobj]
      exact ⟨fun h => h.1, fun h => ⟨h, Or.inl hsecond⟩⟩
    refine ⟨fun h => hmap.1 h.mapped, fun haligned => ?_⟩
    have hyes := hmap.2 haligned
    obtain ⟨hoffset, hsize⟩ := map_params hpage (s.unmap page).2
    obtain ⟨place, hat⟩ := map_ok_mapped hpage hum hyes
    have hsegment' := hat.segment hpage
    exact ⟨hok.2 hfirst, hyes, hat.isMapped, by rw [hoffset, hobj], by rw [hsize hun hufd, hobj],
      ⟨hat.placed hat.isMapped, hsegment'.start_le, hsegment'.le_end⟩⟩

/-- The second page of the file, turned to and extended, is mapped again. -/
theorem unmap_map_page :
    let s := [.call (.construct true 0 0 4096 0), .call .map, .call .turnNext,
      .call (.resize 6000 true)].foldl (State.see 4096 false)
        (State.new false World.twoPaths World.granted)
    s.obj.offset = 4096 ∧ s.obj.size = 6000 ∧ Restores 4096 s := by
  intro s
  have hoffset : s.obj.offset = 4096 := by decide +kernel
  refine ⟨hoffset, by decide +kernel, (unmap_map_iff (by decide) false false World.twoPaths
    World.granted [.call (.construct true 0 0 4096 0), .call .map, .call .turnNext,
      .call (.resize 6000 true)] (by decide +kernel) rfl rfl).2 ?_⟩
  show 4096 ∣ s.obj.offset
  rw [hoffset]

/-- **A segment that cannot be mapped again.** Turned to the second quarter of its page, the object
keeps that offset for normalized, and `mmap` does not take it. -/
theorem turned_not_restored :
    let s := [.call (.construct true 0 0 1024 0), .call .map, .call .turnNext].foldl
      (State.see 4096 false) (State.new false World.twoPaths World.granted)
    s.obj.isMapped = true ∧ (s.unmap 4096).1 = .ok ∧ ¬ Restores 4096 s := by
  intro s
  refine ⟨by decide +kernel, by decide +kernel, fun h => ?_⟩
  have hmapped := h.mapped
  revert hmapped
  decide +kernel

end CUtils.MappedFiles
