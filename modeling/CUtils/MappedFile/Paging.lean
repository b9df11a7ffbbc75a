import CUtils.MappedFile.Turning

/-!
# Going through a file

An object that has been mapped is turned until `TurnNext` finds nothing more. While the system grants
all calls, every turn gives the segment that follows (`Paging.turnNext`): inside a region the last
segment ends where the region ends, so a region is left at the end of a page, and what comes next is
at an offset that `Normalize` accepts. The end of the segment moves on with every turn, so the turns
come to an end (`Paging.exists_last`).
-/

namespace CUtils.MappedFiles

variable {Path : Type} {page : Int}

/-! ## Segments in a row -/

/-- Intervals that follow one another without a gap cover what is between their ends, each place
once. -/
theorem existsUnique_interval {lo hi : Nat → Int} {n : Nat} (hle : ∀ i ≤ n, lo i ≤ hi i)
    (hnext : ∀ i < n, lo (i + 1) = hi i + 1) {b : Int} (hlo : lo 0 ≤ b) (hhi : b ≤ hi n) :
    ∃ i, (i ≤ n ∧ lo i ≤ b ∧ b ≤ hi i) ∧ ∀ j, j ≤ n ∧ lo j ≤ b ∧ b ≤ hi j → j = i := by
  induction n with
  | zero => exact ⟨0, ⟨le_rfl, hlo, hhi⟩, fun j hj => by omega⟩
  | succ n ih =>
      have hstep := hnext n (by omega)
      -- an interval before the last one ends before the last one starts
      have hbefore : ∀ i ≤ n, hi i < lo (n + 1) := by
        intro i hi'
        induction hi' using Nat.decreasingInduction with
        | self => omega
        | of_succ k hk ih' =>
            have hk' := hnext k (by omega)
            have hle' := hle (k + 1) (by omega)
            omega
      by_cases hb : lo (n + 1) ≤ b
      · refine ⟨n + 1, ⟨le_rfl, hb, hhi⟩, fun j hj => ?_⟩
        by_contra hne
        have := hbefore j (by omega)
        omega
      · obtain ⟨i, hi', hunique⟩ := ih (fun i hi => hle i (by omega))
          (fun i hi => hnext i (by omega)) (by omega)
        refine ⟨i, ⟨by omega, hi'.2⟩, fun j hj => hunique j ⟨?_, hj.2⟩⟩
        by_contra hgt
        obtain rfl : j = n + 1 := by omega
        exact hb hj.2.1

/-! ## A system that grants all -/

def Granted (s : State Path) : Prop := ∀ n, (s.answers n).ok = true

theorem Granted.fitSize {s : State Path} (h : Granted s) : Granted (s.fitSize page).2 := by
  rw [State.fitSize]
  split
  · exact fun n => h _
  · exact fun n => h _

theorem Granted.normalizeSize {s : State Path} (h : Granted s) :
    Granted (s.normalizeSize page).2 := by
  have hpath : Granted s.normalizePath.2 := fun n => h _
  rw [State.normalizeSize]
  split
  · exact h
  · by_cases hok : (!s.normalizePath.1) = true
    · rw [if_pos hok]
      exact hpath
    · rw [if_neg hok]
      split
      · split
        · exact hpath
        · exact fun n => h _
      · exact hpath.fitSize

theorem Granted.normalize {s : State Path} (h : Granted s) : Granted (s.normalize page).2 := by
  rw [State.normalize]
  split
  · exact h
  · split
    · exact h
    · by_cases hok : (!(s.normalizeSize page).1) = true
      · rw [if_pos hok]
        exact h.normalizeSize
      · rw [if_neg hok]
        exact h.normalizeSize

theorem Granted.mmap {s : State Path} (h : Granted s) : Granted (s.mmap page).2 := by
  intro n
  rw [State.mmap_answers]
  exact h _

theorem Granted.tryMap {s : State Path} (h : Granted s) : Granted (s.tryMap page).2 := by
  unfold State.tryMap
  simp only
  split
  · exact Granted.mmap (s := { (s.mmap page).2 with obj := { s.obj with hint := 0 } }) h.mmap
  · exact h.mmap

variable [DecidableEq Path]

theorem Granted.map (hpage : 0 < page) {s : State Path} (h : Granted s) (hfd : s.obj.fd ≠ none) :
    Granted (s.map page).2 := by
  have hfd' : (s.normalize page).2.obj.fd ≠ none := by
    rcases State.normalize_cases hpage s with ⟨-, hrun⟩ | ⟨-, -, hp, -⟩ | ⟨-, -, hp, -⟩
    · rw [hrun]
      exact hfd
    · rw [hp.fd]
      exact hfd
    · rw [hp.fd]
      exact hfd
  have hopened : (s.normalize page).2.opened = (true, (s.normalize page).2) := by
    rw [State.opened, if_neg hfd']
  rcases State.map_cases hpage s with ⟨-, hrun⟩ | ⟨-, -, hrun⟩ | ⟨-, -, hrest⟩
  · rw [hrun]
    exact h
  · rw [hrun]
    exact h.normalize
  · rw [hopened] at hrest
    rcases hrest with ⟨hno, -⟩ | ⟨-, ⟨-, hrun⟩ | ⟨address, -, hrun⟩⟩
    · exact absurd hno (by simp)
    · rw [hrun]
      exact h.normalize.tryMap
    · rw [hrun]
      exact h.normalize.tryMap

/-! ## One turn -/

/-- A mapped object with its segment in place, in a region of whole pages of a file of this size. -/
structure Paging (page stSize : Int) (s : State Path) : Prop where
  ready : Ready page s
  granted : Granted s
  isMapped : s.obj.isMapped = true
  placed : Placed s
  base : page ∣ s.memory.base
  region : page ∣ s.obj.rEnd + 1 - s.obj.rStart
  file : ∃ inode, s.files.inode s.obj.path = some inode ∧ (s.files.size inode : Int) = stSize

omit [DecidableEq Path] in
theorem Paging.of_mapped {stSize : Int} {s : State Path} {memory : Memory} {place : Nat}
    (hready : Ready page s) (hgranted : Granted s) (hat : MappedAt page memory s place)
    (hfile : ∃ inode, s.files.inode s.obj.path = some inode ∧ (s.files.size inode : Int) = stSize) :
    Paging page stSize s where
  ready := hready
  granted := hgranted
  isMapped := hat.isMapped
  placed := hat.placed
  base := by rw [hat.memory]; exact hat.aligned
  region := by
    have hregion : s.obj.rEnd + 1 - s.obj.rStart = roundSize page s.obj.size := by
      rw [hat.rEnd, hat.rStart]
      omega
    rw [hregion]
    exact dvd_roundSize hat.pos.le
  file := hfile

omit [DecidableEq Path] in
/-- A region is left at the end of a page. -/
theorem Paging.aligned {stSize : Int} {s : State Path} (h : Paging page stSize s)
    (hlast : s.obj.last = s.obj.rEnd) : page ∣ s.obj.offset + s.obj.size := by
  have hsegment := h.ready.segment h.isMapped
  have hplaced := h.placed h.isMapped
  rw [hsegment.last] at hlast
  have heq : s.obj.offset + s.obj.size = s.memory.base + (s.obj.rEnd + 1 - s.obj.rStart) := by omega
  rw [heq]
  exact Int.dvd_add h.base h.region

/-- **Every turn gives the segment that follows, or there is nothing more.** -/
theorem Paging.turnNext (hpage : 0 < page) {stSize : Int} {s : State Path}
    (h : Paging page stSize s) :
    (stSize ≤ s.obj.endOffset + 1 ∧ (s.turnNext page).1 = .invalidOperation) ∨
      (s.obj.endOffset + 1 < stSize ∧ (s.turnNext page).1 = .ok ∧
        Paging page stSize (s.turnNext page).2 ∧
        (s.turnNext page).2.obj.offset = s.obj.endOffset + 1 ∧
        (s.obj.last = s.obj.rEnd → page ∣ s.obj.endOffset + 1)) := by
  have hm := h.isMapped
  have hsegment := h.ready.segment hm
  have hn := hsegment.isNormed
  have hend := endOffset_add_one hsegment.pos
  obtain ⟨inode, hinode, hsize⟩ := h.file
  have hstat : s.stat = (some stSize, s.ask.2) := by
    refine Prod.ext ?_ rfl
    show (if (s.answers 0).ok then (s.files.inode s.obj.path).map _ else none) = _
    rw [h.granted 0, hinode, if_pos rfl, ← hsize]
    rfl
  by_cases hdone : s.obj.endOffset + 1 ≥ stSize
  · refine Or.inl ⟨hdone, ?_⟩
    rw [State.turnNext, if_neg (by simp [hn]), hstat]
    simp only
    rw [if_pos (show s.ask.2.obj.endOffset + 1 ≥ stSize from hdone)]
  · have hmore : s.obj.endOffset + 1 < stSize := by omega
    refine Or.inr ⟨hmore, ?_⟩
    have hready := h.ready.turnNext hpage
    have hplaced := h.placed.turnNext hpage
    by_cases hlast : s.obj.last = s.obj.rEnd
    · have haligned := h.aligned hlast
      have hleave : Leaving s stSize := ⟨hm, hn, hlast, by rw [hstat], hmore⟩
      subst hsize
      obtain ⟨hok, -, -, hnext⟩ := turnRegion_answers (s := s.ask.2) hpage (h.ready.of_obj rfl) hm
        hinode hmore
      rw [State.ask_files, ← turnNext_leaving page hleave] at hok hnext
      have hyes := hok.2 ⟨h.granted 1, haligned, h.granted 2, h.granted 3, Or.inl (h.granted 4)⟩
      obtain ⟨u, huobj, hufiles, huanswers, humap, hrun⟩ := hnext hyes
      have hum : u.obj.isMapped = false := by rw [huobj]
      have hufd : u.obj.fd ≠ none := by rw [huobj]; exact h.ready.fd hm
      have hugranted : Granted u := fun n => by rw [huanswers]; exact h.granted _
      have huoffset : u.obj.offset = s.obj.offset + s.obj.size := by rw [huobj]; rfl
      obtain ⟨place, hat⟩ := map_ok_mapped hpage hum humap
      obtain ⟨hfiles, hpath, -⟩ := map_files hpage hufd
      have hupath : u.obj.path = s.obj.path := by rw [huobj]; rfl
      refine ⟨hyes, ?_, ?_, fun _ => by rw [hend]; exact haligned⟩
      · rw [hrun] at hready ⊢
        refine Paging.of_mapped hready (hugranted.map hpage hufd) hat ⟨inode, ?_, ?_⟩
        · rw [hfiles, hpath, hupath, hufiles]
          exact hinode
        · rw [hfiles, hufiles]
      · rw [hrun, (map_params hpage u).1, huoffset, hend]
    · have hrun : s.turnNext page = s.ask.2.turnSegment := by
        rw [State.turnNext, if_neg (by simp [hn]), hstat]
        simp only
        rw [if_neg (show ¬ s.ask.2.obj.endOffset + 1 ≥ stSize from hdone),
          if_pos (show s.ask.2.obj.isMapped = true from hm),
          if_neg (show ¬ s.ask.2.obj.last = s.ask.2.obj.rEnd from hlast)]
      refine ⟨by rw [hrun]; rfl, ⟨hready, ?_, ?_, hplaced, ?_, ?_, ?_⟩, ?_,
        fun hlast' => absurd hlast' hlast⟩
      all_goals rw [hrun]
      · exact fun n => h.granted _
      · exact hm
      · exact h.base
      · exact h.region
      · exact ⟨inode, hinode, hsize⟩
      · exact hend.symm

/-! ## All turns -/

/-- The object after some turns. -/
def State.turns (page : Int) (s : State Path) (n : Nat) : State Path :=
  (fun s => (s.turnNext page).2)^[n] s

theorem State.turns_succ (s : State Path) (n : Nat) :
    s.turns page (n + 1) = ((s.turns page n).turnNext page).2 :=
  Function.iterate_succ_apply' (fun s : State Path => (s.turnNext page).2) n s

/-- The turns come to an end; all of them before have succeeded. -/
theorem Paging.exists_last (hpage : 0 < page) {stSize : Int} {s : State Path}
    (h : Paging page stSize s) :
    ∃ n, (∀ i ≤ n, Paging page stSize (s.turns page i)) ∧
      (∀ i < n, (s.turns page i).obj.endOffset + 1 < stSize) ∧
      stSize ≤ (s.turns page n).obj.endOffset + 1 := by
  induction hk : (stSize - s.obj.endOffset).toNat using Nat.strong_induction_on generalizing s with
  | _ k ih =>
      rcases h.turnNext hpage with ⟨hdone, -⟩ | ⟨hmore, -, hpaging, hoffset, -⟩
      · refine ⟨0, fun i hi => ?_, fun i hi => absurd hi (by omega), hdone⟩
        obtain rfl : i = 0 := by omega
        exact h
      · have hpos := (hpaging.ready.segment hpaging.isMapped).pos
        have hend := endOffset_add_one hpos
        obtain ⟨n, hall, hbefore, hlast⟩ := ih _ (by omega) hpaging rfl
        refine ⟨n + 1, fun i hi => ?_, fun i hi => ?_, hlast⟩
        · cases i with
          | zero => exact h
          | succ i => exact hall i (by omega)
        · cases i with
          | zero => exact hmore
          | succ i => exact hbefore i (by omega)

/-- **Turned until nothing is left, an object goes through its file**: from its first segment to the
end of the file, with every byte in one segment. -/
structure PagesThrough (page stSize : Int) (s : State Path) (n : Nat) : Prop where
  turned : ∀ i < n, ((s.turns page i).turnNext page).1 = .ok
  mapped : ∀ i ≤ n, (s.turns page i).obj.isMapped = true ∧ InPlace (s.turns page i)
  nonempty : ∀ i ≤ n, 0 < (s.turns page i).obj.size
  next : ∀ i < n, (s.turns page (i + 1)).obj.offset = (s.turns page i).obj.endOffset + 1
  /-- A region is left for an offset that `Normalize` accepts. -/
  aligned : ∀ i < n, (s.turns page i).obj.last = (s.turns page i).obj.rEnd →
    0 ≤ (s.turns page (i + 1)).obj.offset ∧ (s.turns page (i + 1)).obj.offset.tmod page = 0
  stopped : ((s.turns page n).turnNext page).1 = .invalidOperation
  reached : stSize ≤ (s.turns page n).obj.endOffset + 1
  once : ∀ b, s.obj.offset ≤ b → b < stSize →
    ∃ i, (i ≤ n ∧ (s.turns page i).obj.offset ≤ b ∧ b ≤ (s.turns page i).obj.endOffset) ∧
      ∀ j, j ≤ n ∧ (s.turns page j).obj.offset ≤ b ∧ b ≤ (s.turns page j).obj.endOffset → j = i

theorem Paging.pagesThrough (hpage : 0 < page) {stSize : Int} {s : State Path}
    (h : Paging page stSize s) : ∃ n, PagesThrough page stSize s n := by
  obtain ⟨n, hall, hbefore, hlast⟩ := h.exists_last hpage
  have hsegment : ∀ i ≤ n, Segment page (s.turns page i).obj := fun i hi =>
    (hall i hi).ready.segment (hall i hi).isMapped
  have hturn : ∀ i < n, ((s.turns page i).turnNext page).1 = .ok ∧
      (s.turns page (i + 1)).obj.offset = (s.turns page i).obj.endOffset + 1 ∧
      ((s.turns page i).obj.last = (s.turns page i).obj.rEnd →
        page ∣ (s.turns page i).obj.endOffset + 1) := by
    intro i hi
    rw [State.turns_succ]
    rcases (hall i (by omega)).turnNext hpage with ⟨hdone, -⟩ | ⟨-, hok, -, hoffset, haligned⟩
    · have := hbefore i hi
      omega
    · exact ⟨hok, hoffset, haligned⟩
  refine ⟨n, fun i hi => (hturn i hi).1, fun i hi => ⟨(hall i hi).isMapped, ?_⟩,
    fun i hi => (hsegment i hi).pos, fun i hi => (hturn i hi).2.1, fun i hi hend => ⟨?_, ?_⟩, ?_,
    hlast, fun b hlo hhi => ?_⟩
  · exact ⟨(hall i hi).placed (hall i hi).isMapped, (hsegment i hi).start_le,
      (hsegment i hi).le_end⟩
  · exact (hall (i + 1) hi).ready.offset (hsegment (i + 1) hi).isNormed
  · rw [(hturn i hi).2.1]
    exact Int.tmod_eq_zero_of_dvd ((hturn i hi).2.2 hend)
  · rcases (hall n le_rfl).turnNext hpage with ⟨-, hstop⟩ | ⟨hmore, -⟩
    · exact hstop
    · omega
  · have hle : ∀ i ≤ n, (s.turns page i).obj.offset ≤ (s.turns page i).obj.endOffset := by
      intro i hi
      have hpos := (hsegment i hi).pos
      have hend := endOffset_add_one hpos
      omega
    exact existsUnique_interval hle (fun i hi => (hturn i hi).2.1) hlo (by omega)

theorem rooted_run (hpage : 0 < page) (empty path : Path) {files : Files Path}
    (hfresh : ∀ path inode, files.inode path = some inode → inode < files.next)
    (answers : Nat → Answer) (ops : List (Op Path)) :
    Rooted ((State.new path files answers).run page empty ops) := by
  have hnew := rooted_new path answers hfresh
  unfold State.run
  generalize State.new path files answers = s at hnew
  induction ops generalizing s with
  | nil => exact hnew
  | cons op ops ih => exact ih _ (hnew.step hpage empty op)

theorem ready_run (hpage : 0 < page) (empty path : Path) (files : Files Path)
    (answers : Nat → Answer) (ops : List (Op Path)) :
    Ready page ((State.new path files answers).run page empty ops) := by
  have hready := ready_foldl hpage empty path files answers (ops.map .call)
  rwa [List.foldl_map] at hready

/-- **`TurnNext` goes through the whole file**, for every object that `Map` has mapped, while the
calls are granted. -/
theorem turnNext_pages (hpage : 0 < page) (empty path : Path) {files : Files Path}
    (hfresh : ∀ path inode, files.inode path = some inode → inode < files.next)
    (answers : Nat → Answer) (ops : List (Op Path)) :
    let s := (State.new path files answers).run page empty ops
    let t := (s.map page).2
    s.obj.isMapped = false → (s.map page).1 = .ok → Granted t →
      ∃ inode n, t.files.inode t.obj.path = some inode ∧
        PagesThrough page (t.files.size inode) t n := by
  intro s t hm hok hgranted
  have hrooted : Rooted t := (rooted_run hpage empty path hfresh answers ops).map hpage
  have hready : Ready page t := (ready_run hpage empty path files answers ops).map hpage
  obtain ⟨place, hat⟩ := map_ok_mapped hpage hm hok
  obtain ⟨fd, hfd⟩ := Option.ne_none_iff_exists'.1 (hrooted.mapped hat.isMapped)
  have hinode := hrooted.fd fd hfd
  obtain ⟨n, hpages⟩ :=
    (Paging.of_mapped hready hgranted hat ⟨fd.inode, hinode, rfl⟩).pagesThrough hpage
  exact ⟨fd.inode, n, hinode, hpages⟩

/-- The two pages of a file in segments of 3000 bytes. -/
theorem turnNext_pages_unaligned :
    let s := (State.new false World.twoPaths World.granted).run 4096 false
      [.construct true 0 0 3000 0]
    ∃ n, PagesThrough 4096 8192 (s.map 4096).2 n := by
  intro s
  obtain ⟨inode, n, -, hpages⟩ := turnNext_pages (show (0 : Int) < 4096 by decide) false false
    World.twoPaths_fresh World.granted [.construct true 0 0 3000 0] rfl (by decide +kernel) fun _ => rfl
  exact ⟨n, hpages⟩

end CUtils.MappedFiles
