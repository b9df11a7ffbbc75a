import CUtils.MappedFile.Model
import Mathlib.Tactic.Ring

/-!
# What the parts of the operations do

First the arithmetic of `RoundSize`; then, for the system calls and the private functions, what
they leave alone and what is known when they succeed. The results about files, about the region and
about the segment are drawn from these.
-/

namespace CUtils.MappedFiles

variable {Path : Type} {page : Int}

/-! ## Rounding -/

theorem roundSize_eq {n : Int} (hn : 0 ≤ n) :
    roundSize page n = if n % page = 0 then n else (n / page + 1) * page := by
  rw [roundSize, Int.tmod_eq_emod_of_nonneg hn, Int.tdiv_eq_ediv_of_nonneg hn]

theorem dvd_roundSize {n : Int} (hn : 0 ≤ n) : page ∣ roundSize page n := by
  rw [roundSize_eq hn]
  by_cases h : n % page = 0
  · rw [if_pos h]
    exact Int.dvd_of_emod_eq_zero h
  · rw [if_neg h]
    exact Dvd.intro_left _ rfl

theorem le_roundSize {n : Int} (hpage : 0 < page) (hn : 0 ≤ n) : n ≤ roundSize page n := by
  rw [roundSize_eq hn]
  by_cases h : n % page = 0
  · rw [if_pos h]
  · rw [if_neg h, Int.add_mul, one_mul]
    have hdiv := Int.emod_add_mul_ediv n page
    have hlt := Int.emod_lt_of_pos n hpage
    rw [Int.mul_comm page] at hdiv
    omega

theorem roundSize_lt {n : Int} (hpage : 0 < page) (hn : 0 ≤ n) : roundSize page n < n + page := by
  rw [roundSize_eq hn]
  by_cases h : n % page = 0
  · rw [if_pos h]
    omega
  · rw [if_neg h, Int.add_mul, one_mul]
    have hdiv := Int.emod_add_mul_ediv n page
    have hpos : 0 < n % page := lt_of_le_of_ne (Int.emod_nonneg n hpage.ne') (Ne.symm h)
    rw [Int.mul_comm page] at hdiv
    omega

/-- Two multiples of `page` less than a page apart are equal. -/
theorem eq_of_dvd_of_lt {a b : Int} (ha : page ∣ a) (hb : page ∣ b) (hab : a < b + page)
    (hba : b < a + page) : a = b := by
  have hdvd : page ∣ a - b := Int.dvd_sub ha hb
  have hzero := Int.eq_zero_of_abs_lt_dvd hdvd (by rw [abs_lt]; constructor <;> omega)
  omega

/-- **The least multiple.** -/
theorem roundSize_le_iff {n a : Int} (hpage : 0 < page) (hn : 0 ≤ n) (ha : page ∣ a) :
    roundSize page n ≤ a ↔ n ≤ a := by
  constructor
  · exact fun h => (le_roundSize hpage hn).trans h
  · intro h
    by_contra hgt
    have hlt := roundSize_lt hpage hn
    have heq := eq_of_dvd_of_lt (dvd_roundSize hn) ha (by omega) (by omega)
    omega

theorem roundSize_mono {m n : Int} (hpage : 0 < page) (hm : 0 ≤ m) (h : m ≤ n) :
    roundSize page m ≤ roundSize page n :=
  (roundSize_le_iff hpage hm (dvd_roundSize (hm.trans h))).2
    (h.trans (le_roundSize hpage (hm.trans h)))

theorem roundSize_eq_of_dvd {n a : Int} (hpage : 0 < page) (hn : 0 ≤ n) (ha : page ∣ a) (hle : n ≤ a)
    (hlt : a < n + page) : roundSize page n = a := by
  have h1 := (roundSize_le_iff hpage hn ha).2 hle
  have h2 := le_roundSize hpage hn
  exact eq_of_dvd_of_lt (dvd_roundSize hn) ha (by omega) (by omega)

theorem dvd_of_tmod {n : Int} (h : n.tmod page = 0) : page ∣ n := Int.dvd_of_tmod_eq_zero h

theorem validMappedSize_eq_some {offset target st size : Int} (htarget : 0 < target)
    (h : validMappedSize page offset target st = some size) :
    0 < size ∧ size ≤ target ∧ offset + size ≤ roundSize page st := by
  unfold validMappedSize at h
  simp only at h
  split at h
  · obtain rfl := Option.some.inj h
    split <;> omega
  · exact absurd h (by simp)

theorem validMappedSize_zero {offset : Int} (hoffset : 0 ≤ offset) (target : Int) :
    validMappedSize page offset target 0 = none := by
  have hzero : roundSize page 0 = 0 := by simp [roundSize]
  unfold validMappedSize
  simp only [hzero]
  rw [if_neg (by omega)]

namespace State

/-! ## Asking the system -/

@[simp] theorem ask_obj (s : State Path) : s.ask.2.obj = s.obj := rfl
@[simp] theorem ask_memory (s : State Path) : s.ask.2.memory = s.memory := rfl
@[simp] theorem ask_files (s : State Path) : s.ask.2.files = s.files := rfl

@[simp] theorem normalizePath_obj (s : State Path) : s.normalizePath.2.obj = s.obj := rfl
@[simp] theorem normalizePath_memory (s : State Path) : s.normalizePath.2.memory = s.memory := rfl
@[simp] theorem normalizePath_files (s : State Path) : s.normalizePath.2.files = s.files := rfl

@[simp] theorem stat_obj (s : State Path) : s.stat.2.obj = s.obj := rfl
@[simp] theorem stat_memory (s : State Path) : s.stat.2.memory = s.memory := rfl
@[simp] theorem stat_files (s : State Path) : s.stat.2.files = s.files := rfl

@[simp] theorem close_obj (s : State Path) : s.close.2.obj = s.obj := rfl
@[simp] theorem close_memory (s : State Path) : s.close.2.memory = s.memory := rfl
@[simp] theorem close_files (s : State Path) : s.close.2.files = s.files := rfl

theorem stat_eq_some {s : State Path} {stSize : Int} (h : s.stat.1 = some stSize) :
    ∃ inode, s.files.inode s.obj.path = some inode ∧ stSize = s.files.size inode := by
  unfold stat at h
  simp only at h
  split at h
  · obtain ⟨inode, hinode, heq⟩ := Option.map_eq_some_iff.1 h
    exact ⟨inode, hinode, heq.symm⟩
  · exact absurd h (by simp)

/-! ## Normalizing -/

/-- `Normalize` has something to say about the parameters only. -/
structure Paramed (s s' : State Path) : Prop where
  memory : s'.memory = s.memory
  files : s'.files = s.files
  data : s'.obj.data = s.obj.data
  rStart : s'.obj.rStart = s.obj.rStart
  rEnd : s'.obj.rEnd = s.obj.rEnd
  isMapped : s'.obj.isMapped = s.obj.isMapped
  path : s'.obj.path = s.obj.path
  offset : s'.obj.offset = s.obj.offset
  fd : s'.obj.fd = s.obj.fd
  hint : s'.obj.hint = s.obj.hint

/-- A normalized size fits the file, or there is none yet and one will be made. -/
structure Fitting (page : Int) (s s' : State Path) : Prop extends Paramed s s' where
  pos : 0 < s'.obj.size
  fits : (s.files.inode s.obj.path = none ∧ s'.obj.isNewFile = true ∧
      s.obj.mode &&& MapMode.createIfAbsent ≠ MapMode.default) ∨
    s'.obj.isNewFile = s.obj.isNewFile ∧ ∃ inode, s.files.inode s.obj.path = some inode ∧
      s.obj.offset + s'.obj.size ≤ roundSize page (s.files.size inode)

theorem Paramed.refl (s : State Path) : Paramed s s :=
  ⟨rfl, rfl, rfl, rfl, rfl, rfl, rfl, rfl, rfl, rfl⟩

theorem fitSize_cases (page : Int) {s : State Path} (hoffset : 0 ≤ s.obj.offset)
    (hsize : ¬ (s.obj.size = 0 ∨ s.obj.size < defaultLength)) :
    ((s.fitSize page).1 = false ∧ Paramed s (s.fitSize page).2 ∧
        (s.fitSize page).2.obj.isNewFile = s.obj.isNewFile ∧
        (s.fitSize page).2.obj.isNormed = s.obj.isNormed) ∨
      ((s.fitSize page).1 = true ∧ Fitting page s (s.fitSize page).2 ∧
        (s.fitSize page).2.obj.mode = s.obj.mode) := by
  unfold fitSize
  simp only
  cases hst : s.stat.1 with
  | none =>
      -- without a size every request is too large
      simp only [if_true, Option.getD_none]
      rw [validMappedSize_zero hoffset]
      exact Or.inl ⟨rfl, ⟨rfl, rfl, rfl, rfl, rfl, rfl, rfl, rfl, rfl, rfl⟩, rfl, rfl⟩
  | some stSize =>
      simp only [reduceCtorEq, if_false, Option.getD_some]
      obtain ⟨inode, hinode, rfl⟩ := stat_eq_some hst
      set size := if s.obj.size = defaultLength then (s.files.size inode : Int) else s.obj.size
        with hsz
      cases hv : validMappedSize page s.obj.offset size (s.files.size inode) with
      | none => exact Or.inl ⟨rfl, ⟨rfl, rfl, rfl, rfl, rfl, rfl, rfl, rfl, rfl, rfl⟩, rfl, rfl⟩
      | some valid =>
          have hpos : 0 < size := by
            rw [not_or] at hsize
            unfold defaultLength at hsize hsz
            by_cases hdef : s.obj.size = -1
            · rw [if_pos hdef] at hsz
              by_contra hneg
              have hzero : (s.files.size inode : Int) = 0 := by omega
              rw [hsz, hzero, validMappedSize_zero hoffset] at hv
              exact absurd hv (by simp)
            · rw [if_neg hdef] at hsz
              omega
          obtain ⟨hvalid, -, hfits⟩ := validMappedSize_eq_some hpos hv
          exact Or.inr ⟨rfl, ⟨⟨rfl, rfl, rfl, rfl, rfl, rfl, rfl, rfl, rfl, rfl⟩, hvalid,
            Or.inr ⟨rfl, inode, hinode, hfits⟩⟩, rfl⟩

theorem normalizeSize_cases (hpage : 0 < page) {s : State Path} (hoffset : 0 ≤ s.obj.offset) :
    ((s.normalizeSize page).1 = false ∧ Paramed s (s.normalizeSize page).2 ∧
        (s.normalizeSize page).2.obj.isNewFile = s.obj.isNewFile ∧
        (s.normalizeSize page).2.obj.isNormed = s.obj.isNormed) ∨
      ((s.normalizeSize page).1 = true ∧ Fitting page s (s.normalizeSize page).2 ∧
        (s.normalizeSize page).2.obj.mode = s.obj.mode) := by
  unfold normalizeSize
  by_cases hsize : s.obj.size = 0 ∨ s.obj.size < defaultLength
  · rw [if_pos hsize]
    exact Or.inl ⟨rfl, Paramed.refl s, rfl, rfl⟩
  · rw [if_neg hsize]
    cases hnp : s.normalizePath.1 with
    | false =>
        simp only [hnp, Bool.not_false, if_true]
        exact Or.inl ⟨trivial, ⟨rfl, rfl, rfl, rfl, rfl, rfl, rfl, rfl, rfl, rfl⟩, rfl, rfl⟩
    | true =>
        simp only [hnp, Bool.not_true, Bool.false_eq_true, if_false]
        cases hexists : s.normalizePath.2.fileExists with
        | true =>
            simp only [Bool.not_true, Bool.false_eq_true, if_false]
            rcases fitSize_cases page (s := s.normalizePath.2) hoffset hsize with
              ⟨hr, hp, hnew, hnorm⟩ | ⟨hr, hfit, hmode⟩
            · exact Or.inl ⟨hr, ⟨hp.memory, hp.files, hp.data, hp.rStart, hp.rEnd, hp.isMapped,
                hp.path, hp.offset, hp.fd, hp.hint⟩, hnew, hnorm⟩
            · exact Or.inr ⟨hr, ⟨⟨hfit.memory, hfit.files, hfit.data, hfit.rStart, hfit.rEnd,
                hfit.isMapped, hfit.path, hfit.offset, hfit.fd, hfit.hint⟩, hfit.pos, hfit.fits⟩,
                hmode⟩
        | false =>
            simp only [Bool.not_false, if_true]
            have habsent : s.files.inode s.obj.path = none := by
              simpa [fileExists] using hexists
            by_cases hcreate : s.obj.mode &&& MapMode.createIfAbsent = MapMode.default
            · rw [if_pos hcreate]
              exact Or.inl ⟨rfl, ⟨rfl, rfl, rfl, rfl, rfl, rfl, rfl, rfl, rfl, rfl⟩, rfl, rfl⟩
            · rw [if_neg hcreate]
              refine Or.inr ⟨rfl, ⟨⟨rfl, rfl, rfl, rfl, rfl, rfl, rfl, rfl, rfl, rfl⟩, ?_,
                Or.inl ⟨habsent, rfl, hcreate⟩⟩, rfl⟩
              show 0 < if s.obj.size = defaultLength then page else s.obj.size
              rw [not_or] at hsize
              unfold defaultLength at hsize ⊢
              split
              · exact hpage
              · omega

/-- **What `Normalize` does.** -/
theorem normalize_cases (hpage : 0 < page) (s : State Path) :
    (s.obj.isNormed = true ∧ s.normalize page = (.invalidOperation, s)) ∨
      (s.obj.isNormed = false ∧ (s.normalize page).1 = .invalidValue ∧
        Paramed s (s.normalize page).2 ∧ (s.normalize page).2.obj.isNormed = false ∧
        (s.normalize page).2.obj.isNewFile = s.obj.isNewFile) ∨
      (s.obj.isNormed = false ∧ (s.normalize page).1 = .ok ∧ Fitting page s (s.normalize page).2 ∧
        (s.normalize page).2.obj.isNormed = true ∧ 0 ≤ s.obj.offset ∧ page ∣ s.obj.offset ∧
        (s.normalize page).2.obj.openFlag.create =
          decide ((s.normalize page).2.obj.mode &&& MapMode.createIfAbsent ≠ MapMode.default)) := by
  unfold normalize
  cases hnormed : s.obj.isNormed with
  | true => exact Or.inl ⟨rfl, by simp⟩
  | false =>
      refine Or.inr ?_
      simp only [Bool.false_eq_true, if_false, true_and]
      by_cases hoff : s.obj.offset < 0 ∨ s.obj.offset.tmod page ≠ 0
      · rw [if_pos hoff]
        exact Or.inl ⟨rfl, Paramed.refl s, hnormed, rfl⟩
      · rw [if_neg hoff]
        rw [not_or, Int.not_lt, not_not] at hoff
        rcases normalizeSize_cases hpage hoff.1 with ⟨hr, hparams, hnew, hnorm⟩ |
          ⟨hr, hfit, -⟩
        · rw [hr]
          exact Or.inl ⟨rfl, hparams, hnorm.trans hnormed, hnew⟩
        · rw [hr]
          exact Or.inr ⟨rfl, ⟨⟨hfit.memory, hfit.files, hfit.data, hfit.rStart, hfit.rEnd,
            hfit.isMapped, hfit.path, hfit.offset, hfit.fd, hfit.hint⟩, hfit.pos, hfit.fits⟩, rfl,
            hoff.1, dvd_of_tmod hoff.2, rfl⟩

/-! ## Memory -/

/-- The memory after a call for the region the object knows of. -/
def noted (page : Int) (s : State Path) : Memory :=
  { s.memory with
    calls := ⟨s.obj.rStart, s.obj.rStart + roundSize page s.obj.size, s.memory.held⟩ ::
      s.memory.calls }

/-- What is left of the memory when that region is unmapped. -/
def freed (page : Int) (s : State Path) (x : Int) : Bool :=
  s.memory.held x && !decide (s.obj.rStart ≤ x ∧ x < s.obj.rStart + roundSize page s.obj.size)

theorem mmap_cases (page : Int) (s : State Path) :
    (s.mmap page).2.obj = s.obj ∧ (s.mmap page).2.files = s.files ∧
      (((s.mmap page).1 = none ∧ (s.mmap page).2.memory = s.memory) ∨
        ∃ place : Nat, (s.mmap page).1 = some ((place + 1) * page) ∧ 0 < s.obj.size ∧
          page ∣ s.obj.offset ∧ (s.mmap page).2.memory = { s.memory with
            held := fun x => s.memory.held x ||
              decide ((place + 1) * page ≤ x ∧ x < (place + 1) * page + roundSize page s.obj.size)
            base := s.obj.offset }) := by
  unfold mmap
  simp only
  by_cases h : s.ask.1.ok ∧ 0 < s.obj.size ∧ s.obj.offset.tmod page = 0
  · rw [if_pos h]
    exact ⟨rfl, rfl, Or.inr ⟨s.ask.1.place, rfl, h.2.1, dvd_of_tmod h.2.2, rfl⟩⟩
  · rw [if_neg h]
    exact ⟨rfl, rfl, Or.inl ⟨rfl, rfl⟩⟩

/-- The loop around `mmap`. -/
theorem tryMap_cases (page : Int) (s : State Path) :
    (∃ hint, (s.tryMap page).2.obj = { s.obj with hint := hint }) ∧
      (s.tryMap page).2.files = s.files ∧
      (((s.tryMap page).1 = none ∧ (s.tryMap page).2.memory = s.memory) ∨
        ∃ place : Nat, (s.tryMap page).1 = some ((place + 1) * page) ∧ 0 < s.obj.size ∧
          page ∣ s.obj.offset ∧ (s.tryMap page).2.memory = { s.memory with
            held := fun x => s.memory.held x ||
              decide ((place + 1) * page ≤ x ∧ x < (place + 1) * page + roundSize page s.obj.size)
            base := s.obj.offset }) := by
  obtain ⟨hobj, hfiles, hfirst⟩ := mmap_cases page s
  unfold tryMap
  simp only
  by_cases hretry : (s.mmap page).1 = none ∧ s.obj.hint ≠ 0
  · rw [if_pos hretry]
    have hmemory : (s.mmap page).2.memory = s.memory := by
      rcases hfirst with ⟨-, hmemory⟩ | ⟨place, hsome, -⟩
      · exact hmemory
      · rw [hretry.1] at hsome
        exact absurd hsome (by simp)
    set q : State Path := { (s.mmap page).2 with obj := { s.obj with hint := 0 } } with hq
    obtain ⟨hobj', hfiles', hsecond⟩ := mmap_cases page q
    refine ⟨⟨0, hobj'⟩, hfiles'.trans hfiles, ?_⟩
    have hqmemory : q.memory = s.memory := hmemory
    rw [hqmemory] at hsecond
    exact hsecond
  · rw [if_neg hretry]
    exact ⟨⟨s.obj.hint, hobj⟩, hfiles, hfirst⟩

/-- **What `Unmap` does.** -/
theorem unmap_cases (page : Int) (s : State Path) :
    (s.unmap page).2.files = s.files ∧
      ((s.obj.isMapped = false ∧ s.unmap page = (.invalidOperation, s)) ∨
        (s.obj.isMapped = true ∧ (s.unmap page).1 = .failed ∧ (s.unmap page).2.obj = s.obj ∧
          (s.unmap page).2.memory = noted page s) ∨
        (s.obj.isMapped = true ∧ (s.unmap page).1 = .ok ∧
          (s.unmap page).2.obj =
            { s.obj with rStart := 0, rEnd := 0, data := 0, isMapped := false } ∧
          (s.unmap page).2.memory = { noted page s with held := freed page s })) := by
  unfold unmap munmap
  cases hm : s.obj.isMapped with
  | false => exact ⟨rfl, Or.inl ⟨rfl, rfl⟩⟩
  | true =>
      rw [if_neg (by simp)]
      by_cases h : s.ask.1.ok ∧ 0 < s.obj.size ∧ s.obj.rStart.tmod page = 0
      · simp only [if_pos h]
        exact ⟨rfl, Or.inr (Or.inr ⟨trivial, rfl, rfl, rfl⟩)⟩
      · simp only [if_neg h]
        exact ⟨rfl, Or.inr (Or.inl ⟨trivial, rfl, rfl, rfl⟩)⟩

theorem mremap_cases (page : Int) (s : State Path) (newSize : Int) :
    (s.mremap page newSize).2.obj = s.obj ∧ (s.mremap page newSize).2.files = s.files ∧
      (((s.mremap page newSize).1 = none ∧ (s.mremap page newSize).2.memory = noted page s) ∨
        ∃ place : Nat, (s.mremap page newSize).1 = some ((place + 1) * page) ∧
          (s.mremap page newSize).2.memory = { noted page s with
            held := fun x => freed page s x ||
              decide ((place + 1) * page ≤ x ∧ x < (place + 1) * page + roundSize page newSize) }) := by
  unfold mremap
  simp only
  by_cases h : s.ask.1.ok ∧ 0 < s.obj.size ∧ 0 < newSize ∧ s.obj.rStart.tmod page = 0
  · rw [if_pos h]
    exact ⟨rfl, rfl, Or.inr ⟨s.ask.1.place, rfl, rfl⟩⟩
  · rw [if_neg h]
    exact ⟨rfl, rfl, Or.inl ⟨rfl, rfl⟩⟩

/-! ## Files -/

theorem ftruncate_cases (s : State Path) (fd : Fd) (length : Int) :
    (s.ftruncate fd length).2.obj = s.obj ∧ (s.ftruncate fd length).2.memory = s.memory ∧
      (((s.ftruncate fd length).1 = false ∧ (s.ftruncate fd length).2.files = s.files) ∨
        ((s.ftruncate fd length).1 = true ∧ 0 ≤ length ∧ (s.ftruncate fd length).2.files =
          { s.files with size := Function.update s.files.size fd.inode length.toNat })) := by
  unfold ftruncate
  simp only
  by_cases h : s.ask.1.ok ∧ fd.writable = true ∧ 0 ≤ length
  · rw [if_pos h]
    exact ⟨rfl, rfl, Or.inr ⟨rfl, h.2.2, rfl⟩⟩
  · rw [if_neg h]
    exact ⟨rfl, rfl, Or.inl ⟨rfl, rfl⟩⟩

/-- A size that `Resize` has settled on, and what has become of the files: it is no larger than the
old one, it fits the file, or the file has been extended for it. -/
def Settled (page : Int) (s : State Path) (size : Int) (files : Files Path) : Prop :=
  files = s.files ∧ size ≤ s.obj.size ∨
    (files = s.files ∧ ∃ inode, s.files.inode s.obj.path = some inode ∧
      s.obj.offset + size ≤ roundSize page (s.files.size inode)) ∨
    ∃ inode fd, s.files.inode s.obj.path = some inode ∧ s.obj.fd = some fd ∧
      (s.files.size inode : Int) < s.obj.offset + size ∧
      files = { s.files with
        size := Function.update s.files.size fd.inode (s.obj.offset + size).toNat }

theorem syncFileSize_cases (hpage : 0 < page) (s : State Path) (newSize : Int) :
    (s.syncFileSize newSize).2.obj = s.obj ∧ (s.syncFileSize newSize).2.memory = s.memory ∧
      (((s.syncFileSize newSize).1 = false ∧ (s.syncFileSize newSize).2.files = s.files) ∨
        ((s.syncFileSize newSize).1 = true ∧
          Settled page s newSize (s.syncFileSize newSize).2.files)) := by
  unfold syncFileSize
  by_cases hle : newSize > s.obj.size
  · rw [if_pos hle]
    rcases hst : s.stat with ⟨st, q⟩
    have hq : q.obj = s.obj ∧ q.memory = s.memory ∧ q.files = s.files := by
      have hq : q = s.stat.2 := by rw [hst]
      rw [hq]
      exact ⟨rfl, rfl, rfl⟩
    cases st with
    | none => exact ⟨hq.1, hq.2.1, Or.inl ⟨rfl, hq.2.2⟩⟩
    | some stSize =>
        obtain ⟨inode, hinode, hsize⟩ := stat_eq_some (s := s) (by rw [hst])
        simp only
        rw [hq.1]
        by_cases hfit : s.obj.offset + newSize ≤ stSize
        · rw [if_pos hfit]
          refine ⟨hq.1, hq.2.1, Or.inr ⟨rfl, Or.inr (Or.inl ⟨hq.2.2, inode, hinode, ?_⟩)⟩⟩
          rw [hsize] at hfit
          exact hfit.trans (le_roundSize hpage (by omega))
        · rw [if_neg hfit]
          cases hfd : s.obj.fd with
          | none => exact ⟨hq.1, hq.2.1, Or.inl ⟨rfl, hq.2.2⟩⟩
          | some fd =>
              obtain ⟨hobj, hmemory, hft⟩ := ftruncate_cases q fd (s.obj.offset + newSize)
              refine ⟨hobj.trans hq.1, hmemory.trans hq.2.1, ?_⟩
              rcases hft with ⟨hfail, hfiles⟩ | ⟨hok, -, hfiles⟩
              · exact Or.inl ⟨hfail, hfiles.trans hq.2.2⟩
              · refine Or.inr ⟨hok, Or.inr (Or.inr ⟨inode, fd, hinode, hfd, by omega, ?_⟩)⟩
                rw [hfiles, hq.2.2]
  · rw [if_neg hle]
    exact ⟨rfl, rfl, Or.inr ⟨rfl, Or.inl ⟨rfl, by omega⟩⟩⟩

theorem settleSize_cases (hpage : 0 < page) (s : State Path) {newSize : Int} (hnew : 0 < newSize)
    (sync : Bool) :
    (s.settleSize page newSize sync).2.obj = s.obj ∧
      (s.settleSize page newSize sync).2.memory = s.memory ∧
      ((∃ e, (s.settleSize page newSize sync).1 = .error e ∧
          (s.settleSize page newSize sync).2.files = s.files) ∨
        ∃ size, (s.settleSize page newSize sync).1 = .ok size ∧ 0 < size ∧
          Settled page s size (s.settleSize page newSize sync).2.files) := by
  unfold settleSize
  cases sync with
  | true =>
      obtain ⟨hobj, hmemory, hsync⟩ := syncFileSize_cases hpage s newSize
      simp only [if_true]
      refine ⟨hobj, hmemory, ?_⟩
      rcases hsync with ⟨hfail, hfiles⟩ | ⟨hok, hset⟩
      · rw [hfail]
        exact Or.inl ⟨_, rfl, hfiles⟩
      · rw [hok]
        exact Or.inr ⟨newSize, rfl, hnew, hset⟩
  | false =>
      simp only [Bool.false_eq_true, if_false]
      cases hst : s.stat.1 with
      | none => exact ⟨rfl, rfl, Or.inl ⟨_, rfl, rfl⟩⟩
      | some stSize =>
          obtain ⟨inode, hinode, rfl⟩ := stat_eq_some hst
          simp only
          cases hv : validMappedSize page s.obj.offset newSize (s.files.size inode) with
          | none => exact ⟨rfl, rfl, Or.inl ⟨_, rfl, rfl⟩⟩
          | some valid =>
              obtain ⟨hpos, -, hfits⟩ := validMappedSize_eq_some hnew hv
              exact ⟨rfl, rfl, Or.inr ⟨valid, rfl, hpos, Or.inr (Or.inl ⟨rfl, inode, hinode, hfits⟩)⟩⟩

/-- A request that `Resize` refuses whatever the file is like. -/
def Refused (s : State Path) (newSize : Int) : Prop :=
  newSize = 0 ∨ newSize < defaultLength ∨ newSize = s.obj.size ∧ newSize ≠ defaultLength

/-- **What `Resize(newSize, sync)` does.** -/
theorem resize_cases (hpage : 0 < page) (s : State Path) (newSize : Int) (sync : Bool) :
    ((s.resize page newSize sync).2.obj = s.obj ∧
        (s.resize page newSize sync).2.memory = s.memory ∧
        (s.resize page newSize sync).2.files = s.files) ∨
      (s.obj.isMapped = true ∧ ¬ s.Refused newSize ∧ ∃ size, 0 < size ∧
        Settled page s size (s.resize page newSize sync).2.files ∧
        (((s.resize page newSize sync).2.obj = s.obj ∧
            (s.resize page newSize sync).2.memory = noted page s) ∨
          ∃ place : Nat, (s.resize page newSize sync).2.obj = { s.obj with
              rStart := (place + 1) * page
              size := size
              rEnd := (place + 1) * page + roundSize page size - 1
              data := (place + 1) * page } ∧
            (s.resize page newSize sync).2.memory = { noted page s with
              held := fun x => freed page s x ||
                decide ((place + 1) * page ≤ x ∧ x < (place + 1) * page + roundSize page size) })) := by
  have hrq : (s.requestedSize page newSize).2.obj = s.obj ∧
      (s.requestedSize page newSize).2.memory = s.memory ∧
      (s.requestedSize page newSize).2.files = s.files := by
    unfold requestedSize
    split <;> exact ⟨rfl, rfl, rfl⟩
  have hnonneg : (s.requestedSize page newSize).1 ≠ defaultLength := by
    unfold requestedSize defaultLength
    by_cases hdef : newSize = -1
    · rw [if_pos hdef]
      cases hst : s.stat.1 with
      | none =>
          show page ≠ -1
          omega
      | some stSize =>
          obtain ⟨inode, -, rfl⟩ := stat_eq_some hst
          show (s.files.size inode : Int) ≠ -1
          omega
    · rw [if_neg hdef]
      exact hdef
  have hasked : newSize ≠ defaultLength → (s.requestedSize page newSize).1 = newSize := by
    intro hdef
    rw [requestedSize, if_neg hdef]
  unfold resize
  set rq := s.requestedSize page newSize
  simp only
  by_cases hbad : rq.1 = 0 ∨ rq.1 < defaultLength ∨ rq.1 = s.obj.size
  · rw [if_pos hbad]
    exact Or.inl hrq
  · rw [if_neg hbad]
    cases hm : s.obj.isMapped with
    | false => exact Or.inl hrq
    | true =>
        rw [if_neg (by simp)]
        have hpos : 0 < rq.1 := by
          simp only [not_or, defaultLength] at hbad hnonneg
          omega
        obtain ⟨hobj, hmemory, hset⟩ := settleSize_cases hpage rq.2 hpos sync
        rw [hrq.1] at hobj
        rw [hrq.2.1] at hmemory
        have hsettled : ∀ size files, Settled page rq.2 size files → Settled page s size files := by
          intro size files h
          unfold Settled at h ⊢
          rw [hrq.1, hrq.2.2] at h
          exact h
        set se := rq.2.settleSize page rq.1 sync
        rcases hset with ⟨e, herr, hfiles⟩ | ⟨size, hok, hsize, hsettle⟩
        · rw [herr]
          exact Or.inl ⟨hobj, hmemory, hfiles.trans hrq.2.2⟩
        · rw [hok]
          have hrefused : ¬ s.Refused newSize := by
            rintro hrefused
            have hdef : newSize ≠ defaultLength := by
              rcases hrefused with rfl | hlt | ⟨-, hdef⟩
              · decide
              · exact hlt.ne
              · exact hdef
            rw [hasked hdef] at hbad
            exact hbad (hrefused.imp id (Or.imp id And.left))
          refine Or.inr ⟨rfl, hrefused, size, hsize, ?_⟩
          have hnoted : noted page se.2 = noted page s := by rw [noted, noted, hobj, hmemory]
          have hfreed : freed page se.2 = freed page s := by
            funext x
            rw [freed, freed, hobj, hmemory]
          obtain ⟨hobj', hfiles', hre⟩ := mremap_cases page se.2 size
          rw [hnoted, hfreed] at hre
          rcases hmr : se.2.mremap page size with ⟨address, q⟩
          rw [hmr] at hobj' hfiles' hre
          simp only at hobj' hfiles' hre
          rcases hre with ⟨rfl, hmem⟩ | ⟨place, rfl, hmem⟩
          · simp only [hmr]
            refine ⟨?_, Or.inl ⟨hobj'.trans hobj, hmem⟩⟩
            rw [hfiles']
            exact hsettled _ _ hsettle
          · simp only [hmr]
            refine ⟨?_, Or.inr ⟨place, ?_, hmem⟩⟩
            · rw [hfiles']
              exact hsettled _ _ hsettle
            · rw [hobj', hobj, hm]

variable [DecidableEq Path]

/-- The file of `path_` with this number, made if it was not there. -/
structure Found (s : State Path) (fd : Fd) (s' : State Path) : Prop where
  obj : s'.obj = s.obj
  memory : s'.memory = s.memory
  inode : s'.files.inode = Function.update s.files.inode s.obj.path (some fd.inode)
  size : ∀ inode ≠ fd.inode, s'.files.size inode = s.files.size inode
  found : (s.files.inode s.obj.path = some fd.inode ∧ s'.files = s.files) ∨
    (s.files.inode s.obj.path = none ∧ s.obj.openFlag.create = true ∧ fd.inode = s.files.next ∧
      s'.files.next = s.files.next + 1)

theorem openPath_cases (s : State Path) :
    (s.openPath.1 = none ∧ s.openPath.2.obj = s.obj ∧ s.openPath.2.memory = s.memory ∧
        s.openPath.2.files = s.files) ∨
      ∃ fd, s.openPath.1 = some fd ∧ Found s fd s.openPath.2 := by
  unfold openPath
  simp only
  by_cases hok : (!s.ask.1.ok) = true
  · rw [if_pos hok]
    exact Or.inl ⟨rfl, rfl, rfl, rfl⟩
  · rw [if_neg hok]
    cases hinode : s.files.inode s.obj.path with
    | some inode =>
        refine Or.inr ⟨_, rfl, rfl, rfl, ?_, fun _ _ => rfl, Or.inl ⟨hinode, rfl⟩⟩
        exact (Function.update_eq_self_iff.2 hinode.symm).symm
    | none =>
        by_cases hcreate : s.obj.openFlag.create = true
        · simp only [if_pos hcreate]
          exact Or.inr ⟨_, rfl, rfl, rfl, rfl, fun _ hne => Function.update_of_ne hne _ _,
            Or.inr ⟨hinode, hcreate, rfl, rfl⟩⟩
        · simp only [if_neg hcreate]
          exact Or.inl ⟨trivial, rfl, rfl, rfl⟩

/-- `OpenFile` gives up: what it may have made or found is unlinked. -/
structure GivenUp (s s' : State Path) : Prop where
  obj : s'.obj = s.obj
  memory : s'.memory = s.memory
  files : s'.files = s.files ∨
    (s.obj.isNewFile = true ∧ s'.files.inode = Function.update s.files.inode s.obj.path none ∧
      (∀ inode < s.files.next, s'.files.size inode = s.files.size inode) ∧
      s.files.next ≤ s'.files.next)

/-- `OpenFile` is done: a file taken for new has the size asked for. -/
structure OpenedAs (s : State Path) (fd : Fd) (s' : State Path) : Prop where
  obj : s'.obj = { s.obj with fd := some fd, isNewFile := false }
  memory : s'.memory = s.memory
  inode : s'.files.inode = Function.update s.files.inode s.obj.path (some fd.inode)
  size : ∀ inode ≠ fd.inode, s'.files.size inode = s.files.size inode
  next : s.files.next ≤ s'.files.next
  found : s.files.inode s.obj.path = some fd.inode ∨
    (s.files.inode s.obj.path = none ∧ s.obj.openFlag.create = true ∧ fd.inode = s.files.next ∧
      s.files.next < s'.files.next)
  sized : (s.obj.isNewFile = true ∧ 0 ≤ s.obj.endOffset + 1 ∧
      (s'.files.size fd.inode : Int) = s.obj.endOffset + 1) ∨
    (s.obj.isNewFile = false ∧ (s.files.inode s.obj.path = some fd.inode → s'.files = s.files))

theorem sizeNewFile_cases (s : State Path) (fd : Fd) :
    (s.sizeNewFile fd).2.memory = s.memory ∧
      (((s.sizeNewFile fd).1 = false ∧ (s.sizeNewFile fd).2.obj = s.obj ∧
        (s.sizeNewFile fd).2.files =
          { s.files with inode := Function.update s.files.inode s.obj.path none }) ∨
      ((s.sizeNewFile fd).1 = true ∧ (s.sizeNewFile fd).2.obj = { s.obj with isNewFile := false } ∧
        0 ≤ s.obj.endOffset + 1 ∧ (s.sizeNewFile fd).2.files =
          { s.files with
            size := Function.update s.files.size fd.inode (s.obj.endOffset + 1).toNat })) := by
  unfold sizeNewFile
  simp only
  cases hnp : s.normalizePath.1 with
  | false => exact ⟨rfl, Or.inl ⟨rfl, rfl, rfl⟩⟩
  | true =>
      rw [if_neg (by simp)]
      obtain ⟨hobj, hmemory, hft⟩ := ftruncate_cases s.normalizePath.2 fd (s.obj.endOffset + 1)
      set ft := s.normalizePath.2.ftruncate fd (s.obj.endOffset + 1)
      rcases hft with ⟨hfail, hfiles⟩ | ⟨hok, hpos, hfiles⟩
      · rw [hfail, if_pos (by simp)]
        refine ⟨hmemory, Or.inl ⟨rfl, hobj, ?_⟩⟩
        show { ft.2.files with inode := Function.update ft.2.files.inode ft.2.obj.path none } = _
        rw [hfiles, hobj]
        rfl
      · rw [hok, if_neg (by simp)]
        exact ⟨hmemory, Or.inr ⟨rfl, rfl, hpos, hfiles⟩⟩

/-- **What `OpenFile` does.** -/
theorem openFile_cases (s : State Path) :
    (s.openFile.1 = false ∧ GivenUp s s.openFile.2) ∨
      (s.openFile.1 = true ∧ ∃ fd, OpenedAs s fd s.openFile.2) := by
  unfold openFile
  rcases openPath_cases s with ⟨hnone, hobj, hmemory, hfiles⟩ | ⟨fd, hsome, hfound⟩
  · rcases hop : s.openPath with ⟨fd, q⟩
    rw [hop] at hnone hobj hmemory hfiles
    subst hnone
    exact Or.inl ⟨rfl, hobj, hmemory, Or.inl hfiles⟩
  · rcases hop : s.openPath with ⟨fd', q⟩
    rw [hop] at hsome hfound
    obtain rfl : fd' = some fd := hsome
    change Found s fd q at hfound
    have hnext : s.files.next ≤ q.files.next := by
      rcases hfound.found with ⟨-, heq⟩ | ⟨-, -, -, heq⟩
      · rw [heq]
      · omega
    simp only
    cases hnew : q.obj.isNewFile with
    | false =>
        simp only [Bool.false_eq_true, if_false, Bool.not_true]
        rw [hfound.obj] at hnew
        refine Or.inr ⟨trivial, fd, ?_, hfound.memory, hfound.inode, hfound.size, hnext, ?_,
          Or.inr ⟨hnew, fun hold => ?_⟩⟩
        · rw [hfound.obj]
          cases hobj : s.obj
          rw [hobj] at hnew
          simp only at hnew
          rw [hnew]
        · rcases hfound.found with ⟨hold, -⟩ | ⟨habsent, hcreate, hinode, heq⟩
          · exact Or.inl hold
          · refine Or.inr ⟨habsent, hcreate, hinode, ?_⟩
            show s.files.next < q.files.next
            omega
        · rcases hfound.found with ⟨-, heq⟩ | ⟨habsent, -⟩
          · exact heq
          · rw [hold] at habsent
            exact absurd habsent (by simp)
    | true =>
        simp only [if_true]
        have hnew' : s.obj.isNewFile = true := by rw [← hfound.obj]; exact hnew
        obtain ⟨hmemory, hsized⟩ := sizeNewFile_cases q fd
        set z := q.sizeNewFile fd
        rcases hsized with ⟨hfail, hobj, hfiles⟩ | ⟨hok, hobj, hpos, hfiles⟩
        · simp only [hfail, Bool.not_false, if_true]
          refine Or.inl ⟨trivial, hobj.trans hfound.obj, hmemory.trans hfound.memory,
            Or.inr ⟨hnew', ?_, fun inode hinode => ?_, ?_⟩⟩
          · rw [hfiles]
            show Function.update q.files.inode q.obj.path none = _
            rw [hfound.inode, hfound.obj, Function.update_idem]
          · rw [hfiles]
            show q.files.size inode = _
            rcases hfound.found with ⟨-, heq⟩ | ⟨-, -, hnext', -⟩
            · rw [heq]
            · exact hfound.size inode (by omega)
          · rw [hfiles]
            exact hnext
        · simp only [hok, Bool.not_true, Bool.false_eq_true, if_false]
          rw [hfound.obj] at hpos
          refine Or.inr ⟨trivial, fd, ?_, hmemory.trans hfound.memory, ?_, fun inode hne => ?_, ?_, ?_,
            Or.inl ⟨hnew', hpos, ?_⟩⟩
          · rw [hobj, hfound.obj]
          · rw [hfiles]
            exact hfound.inode
          · rw [hfiles]
            exact (Function.update_of_ne hne _ _).trans (hfound.size inode hne)
          · rw [hfiles]
            exact hnext
          · rcases hfound.found with ⟨hold, -⟩ | ⟨habsent, hcreate, hinode, heq⟩
            · exact Or.inl hold
            · refine Or.inr ⟨habsent, hcreate, hinode, ?_⟩
              rw [hfiles]
              show s.files.next < q.files.next
              omega
          · rw [hfiles]
            show ((Function.update q.files.size fd.inode _ fd.inode : Nat) : Int) = _
            rw [Function.update_self, hfound.obj]
            omega

/-! ## Mapping -/

/-- The file of an object that is going to be mapped. -/
def opened (s : State Path) : Bool × State Path :=
  if s.obj.fd = none then s.openFile else (true, s)

/-- **What `Map` does**, in terms of its parts. -/
theorem map_cases (hpage : 0 < page) (s : State Path) :
    (s.obj.isMapped = true ∧ s.map page = (.invalidOperation, s)) ∨
      (s.obj.isMapped = false ∧ (s.normalize page).1 = .invalidValue ∧
        s.map page = s.normalize page) ∨
      (s.obj.isMapped = false ∧ (s.normalize page).1 ≠ .invalidValue ∧
        (((s.normalize page).2.opened.1 = false ∧
            s.map page = (.failed, (s.normalize page).2.opened.2)) ∨
          ((s.normalize page).2.opened.1 = true ∧
            ((((s.normalize page).2.opened.2.tryMap page).1 = none ∧
                s.map page = (.failed, ((s.normalize page).2.opened.2.tryMap page).2)) ∨
              ∃ address, ((s.normalize page).2.opened.2.tryMap page).1 = some address ∧
                s.map page =
                  (.ok, ((s.normalize page).2.opened.2.tryMap page).2.setRegion page address))))) := by
  unfold map
  cases hm : s.obj.isMapped with
  | true => exact Or.inl ⟨rfl, rfl⟩
  | false =>
      simp only [Bool.false_eq_true, if_false, true_and, false_and, false_or]
      have hn := normalize_cases hpage s
      set n := s.normalize page
      by_cases hbad : n.1 = .invalidValue
      · rw [if_pos (by rw [hbad]; decide)]
        exact Or.inl ⟨hbad, rfl⟩
      · have hgood : ¬ (n.1 ≠ .ok ∧ n.1 ≠ .invalidOperation) := by
          rcases hn with ⟨-, heq⟩ | ⟨-, hval, -⟩ | ⟨-, hok, -⟩
          · rw [heq]
            simp
          · exact absurd hval hbad
          · rw [hok]
            decide
        rw [if_neg hgood]
        refine Or.inr ⟨hbad, ?_⟩
        change _ ∧ (if (!n.2.opened.1) = true then (ErrCode.failed, n.2.opened.2) else _) = _ ∨ _
        set o := n.2.opened with ho
        have hfold : (if n.2.obj.fd = none then n.2.openFile else (true, n.2)) = o := rfl
        rw [hfold]
        cases hopen : o.1 with
        | false => exact Or.inl ⟨rfl, rfl⟩
        | true =>
            refine Or.inr ⟨rfl, ?_⟩
            rw [if_neg (by simp)]
            rcases ht : o.2.tryMap page with ⟨address, q⟩
            cases address with
            | none => exact Or.inl ⟨rfl, rfl⟩
            | some address => exact Or.inr ⟨address, rfl, rfl⟩

/-! ## Turning -/

/-- The size of the next segment, for a file of this size. -/
def nextSize (s : State Path) (stSize : Int) : Int :=
  if s.obj.endOffset + 1 + s.obj.size > stSize then stSize - s.obj.endOffset - 1 else s.obj.size

/-- The object as `TurnNext` sets it up before it unmaps the region. -/
def turned (s : State Path) (stSize : Int) : State Path :=
  { s with obj := { s.obj with
    size := s.nextSize stSize
    isNormed := false
    hint := s.obj.rStart
    offset := s.obj.offset + s.obj.size } }

/-- The parameters as they were. -/
def restored (s s' : State Path) : State Path :=
  { s' with obj := { s'.obj with
    offset := s.obj.offset
    size := s.obj.size
    hint := s.obj.hint
    isNormed := true } }

theorem turnRegion_cases (s : State Path) (stSize : Int) (hm : s.obj.isMapped = true)
    (hn : s.obj.isNormed = true) :
    ((s.turnRegion page stSize).2.obj = s.obj ∧
        (s.turnRegion page stSize).2.memory = noted page (s.turned stSize) ∧
        (s.turnRegion page stSize).2.files = s.files) ∨
      ∃ u : State Path, u.obj = { (s.turned stSize).obj with
          rStart := 0, rEnd := 0, data := 0, isMapped := false } ∧
        u.memory = { noted page (s.turned stSize) with held := freed page (s.turned stSize) } ∧
        u.files = s.files ∧
        (((u.map page).1 = .ok ∧ (s.turnRegion page stSize).2 = (u.map page).2) ∨
          ((u.map page).1 ≠ .ok ∧
            (s.turnRegion page stSize).2 = restored s (u.map page).2)) := by
  have hrun : s.turnRegion page stSize =
      (let u := (s.turned stSize).unmap page
       let r := if u.1 = .ok then u.2.remap page else u
       if r.1 ≠ .ok then (r.1, restored s r.2) else r) := rfl
  obtain ⟨hfiles, hcases⟩ := unmap_cases page (s.turned stSize)
  rw [hrun]
  set u := (s.turned stSize).unmap page
  rcases hcases with ⟨hnot, -⟩ | ⟨-, hfail, hobj, hmemory⟩ | ⟨-, hok, hobj, hmemory⟩
  · exact absurd (hm.symm.trans hnot) (by simp)
  · refine Or.inl ?_
    simp only [hfail, reduceCtorEq, if_false, ne_eq, not_false_eq_true, if_true]
    refine ⟨?_, hmemory, hfiles⟩
    rw [restored, hobj]
    simp only [turned]
    rw [← hn]
  · refine Or.inr ⟨u.2, hobj, hmemory, hfiles, ?_⟩
    have hremap : u.2.remap page = u.2.map page := by
      rw [remap, if_neg (by rw [hobj]; simp)]
    simp only [hok, if_true, hremap]
    by_cases hmap : (u.2.map page).1 = .ok
    · rw [if_neg (by simpa using hmap)]
      exact Or.inl ⟨hmap, rfl⟩
    · rw [if_pos hmap]
      exact Or.inr ⟨hmap, rfl⟩

/-- **What `TurnNext` does.** -/
theorem turnNext_cases (page : Int) (s : State Path) :
    ((s.turnNext page).2.obj = s.obj ∧ (s.turnNext page).2.memory = s.memory ∧
        (s.turnNext page).2.files = s.files) ∨
      (s.obj.isNormed = true ∧ ∃ inode, s.files.inode s.obj.path = some inode ∧
        s.stat.1 = some (s.files.size inode : Int) ∧ s.obj.endOffset + 1 < s.files.size inode ∧
        ((s.obj.isMapped = false ∧ (s.turnNext page).2.memory = s.memory ∧
            (s.turnNext page).2.files = s.files ∧ (s.turnNext page).2.obj =
              { s.obj with offset := s.obj.offset + page, isNormed := false }) ∨
          (s.obj.isMapped = true ∧ s.obj.last ≠ s.obj.rEnd ∧
            (s.turnNext page).2.obj = s.turnSegment.2.obj ∧
            (s.turnNext page).2.memory = s.memory ∧ (s.turnNext page).2.files = s.files) ∨
          (s.obj.isMapped = true ∧ s.obj.last = s.obj.rEnd ∧ ∃ q : State Path, q.obj = s.obj ∧
            q.memory = s.memory ∧ q.files = s.files ∧
            (s.turnNext page).2 = (q.turnRegion page (s.files.size inode)).2))) := by
  unfold turnNext
  cases hn : s.obj.isNormed with
  | false => exact Or.inl ⟨rfl, rfl, rfl⟩
  | true =>
      rw [if_neg (by simp)]
      rcases hst : s.stat with ⟨st, q⟩
      have hq : q.obj = s.obj ∧ q.memory = s.memory ∧ q.files = s.files := by
        have hq : q = s.stat.2 := by rw [hst]
        rw [hq]
        exact ⟨rfl, rfl, rfl⟩
      cases st with
      | none => exact Or.inl hq
      | some stSize =>
          obtain ⟨inode, hinode, rfl⟩ := stat_eq_some (s := s) (by rw [hst])
          simp only
          by_cases hend : q.obj.endOffset + 1 ≥ (s.files.size inode : Int)
          · rw [if_pos hend]
            exact Or.inl hq
          · rw [if_neg hend]
            rw [hq.1] at hend
            refine Or.inr ⟨trivial, inode, hinode, rfl, by omega, ?_⟩
            cases hm : s.obj.isMapped with
            | false =>
                rw [if_neg (by rw [hq.1, hm]; simp)]
                refine Or.inl ⟨rfl, hq.2.1, hq.2.2, ?_⟩
                simp only
                rw [hq.1, hm]
            | true =>
                rw [if_pos (by rw [hq.1]; exact hm)]
                by_cases hlast : s.obj.last = s.obj.rEnd
                · rw [if_pos (by rw [hq.1]; exact hlast)]
                  exact Or.inr (Or.inr ⟨rfl, hlast, q, hq.1, hq.2.1, hq.2.2, rfl⟩)
                · rw [if_neg (by rw [hq.1]; exact hlast)]
                  refine Or.inr (Or.inl ⟨rfl, hlast, ?_, hq.2.1, hq.2.2⟩)
                  simp only [turnSegment]
                  rw [hq.1]

/-! ## Changing and clearing -/

omit [DecidableEq Path]

/-- An object without a region is given new parameters; they are no longer normalized. -/
structure Reparam (s s' : State Path) : Prop where
  memory : s'.memory = s.memory
  files : s'.files = s.files
  isMapped : s'.obj.isMapped = false
  isNormed : s'.obj.isNormed = false
  fd : s'.obj.fd = none ∨ s'.obj.fd = s.obj.fd ∧ s'.obj.path = s.obj.path

/-- An object is left as if it had never been used, with what it could not unmap. -/
structure Gone (s s' : State Path) : Prop where
  memory : s'.memory = { s.memory with held := fun _ => false }
  files : s'.files = s.files
  isMapped : s'.obj.isMapped = false
  isNormed : s'.obj.isNormed = false
  fd : s'.obj.fd = none

/-- What an invariant has to withstand for the operations other than `Map`, `Resize` and
`TurnNext`. -/
structure Stable (page : Int) (I : State Path → Prop) : Prop where
  same : ∀ {s s' : State Path}, I s → s'.obj = s.obj → s'.memory = s.memory → s'.files = s.files → I s'
  params : ∀ {s s' : State Path}, I s → s.obj.isMapped = false → Reparam s s' → I s'
  unmap : ∀ {s : State Path}, I s → I (s.unmap page).2
  gone : ∀ {s s' : State Path}, I s → Gone s s' → I s'

theorem unmap_ok_isMapped {s : State Path} (h : (s.unmap page).1 = .ok) :
    (s.unmap page).2.obj.isMapped = false := by
  obtain ⟨-, ⟨-, hrun⟩ | ⟨-, hfail, -⟩ | ⟨-, -, hobj, -⟩⟩ := unmap_cases page s
  · rw [hrun] at h
    exact absurd h (by simp)
  · rw [hfail] at h
    exact absurd h (by simp)
  · rw [hobj]

theorem Stable.change {I : State Path → Prop} (hI : Stable page I) {s : State Path} (h : I s)
    (differs : Bool) {set : State Path → Bool × State Path}
    (hset : ∀ q, I q → q.obj.isMapped = false → I (set q).2) : I (s.change page differs set).2 := by
  unfold State.change
  cases differs with
  | false => exact h
  | true =>
      cases hm : s.obj.isMapped with
      | false => exact hset s h hm
      | true =>
          simp only [if_true, Bool.not_true, Bool.false_eq_true, if_false]
          by_cases hok : (s.unmap page).1 = .ok
          · rw [if_pos hok]
            exact hset _ (hI.unmap h) (unmap_ok_isMapped hok)
          · rw [if_neg hok]
            exact hI.unmap h

/-- Of an object without a region, `Clear` makes a new one, unless the descriptor stays open. -/
theorem closeAndReset_cases (empty : Path) (s : State Path) :
    ((s.closeAndReset empty).1 = .ok ∧ (s.closeAndReset empty).2.memory = s.memory ∧
        (s.closeAndReset empty).2.files = s.files ∧
        (s.closeAndReset empty).2.obj = { path := empty }) ∨
      ((s.closeAndReset empty).1 ≠ .ok ∧ (s.closeAndReset empty).2.obj = s.obj ∧
        (s.closeAndReset empty).2.memory = s.memory ∧ (s.closeAndReset empty).2.files = s.files) := by
  unfold closeAndReset
  by_cases hfd : s.obj.fd = none
  · rw [if_pos hfd]
    exact Or.inl ⟨rfl, rfl, rfl, rfl⟩
  · rw [if_neg hfd]
    simp only
    cases hc : s.close.1 with
    | false => exact Or.inr ⟨by simp, rfl, rfl, rfl⟩
    | true => exact Or.inl ⟨rfl, rfl, rfl, rfl⟩

theorem Stable.closeAndReset {I : State Path → Prop} (hI : Stable page I) {s : State Path} (h : I s)
    (hm : s.obj.isMapped = false) (empty : Path) : I (s.closeAndReset empty).2 := by
  rcases closeAndReset_cases empty s with ⟨-, hmemory, hfiles, hobj⟩ | ⟨-, hobj, hmemory, hfiles⟩
  · exact hI.params h hm ⟨hmemory, hfiles, by rw [hobj], by rw [hobj], Or.inl (by rw [hobj])⟩
  · exact hI.same h hobj hmemory hfiles

theorem Stable.clear {I : State Path → Prop} (hI : Stable page I) {s : State Path} (h : I s)
    (empty : Path) (force : Bool) : I (s.clear page empty force).2 := by
  unfold State.clear
  cases hm : s.obj.isMapped with
  | false => exact hI.closeAndReset h hm empty
  | true =>
      simp only [if_true]
      have hu := hI.unmap h
      by_cases hok : (s.unmap page).1 = .ok
      · rw [if_pos hok]
        exact hI.closeAndReset hu (unmap_ok_isMapped hok) empty
      · rw [if_neg hok]
        cases force with
        | false => exact hu
        | true =>
            simp only [Bool.not_true, Bool.false_eq_true, if_false]
            rcases closeAndReset_cases empty (s.unmap page).2 with ⟨hc, hmemory, hfiles, hobj⟩ |
              ⟨hc, hobj, hmemory, hfiles⟩
            · rw [if_pos hc]
              refine hI.gone hu ⟨?_, hfiles, ?_, ?_, ?_⟩
              · simp only [abandon]
                rw [hmemory]
              all_goals
                simp only [abandon]
                rw [hobj]
            · rw [if_neg hc]
              exact hI.same hu hobj hmemory hfiles

theorem Stable.destroy {I : State Path → Prop} (hI : Stable page I) {s : State Path} (h : I s)
    (empty : Path) : I (s.destroy page empty) := by
  unfold State.destroy
  simp only
  have hu : I (if s.obj.isMapped = true then (s.unmap page).2 else s) := by
    split
    · exact hI.unmap h
    · exact h
  set u := if s.obj.isMapped = true then (s.unmap page).2 else s
  have hc : (if u.obj.fd = none then u else u.close.2).memory = u.memory ∧
      (if u.obj.fd = none then u else u.close.2).files = u.files := by
    split <;> exact ⟨rfl, rfl⟩
  refine hI.gone hu ⟨?_, hc.2, rfl, rfl, rfl⟩
  simp only [abandon, reset]
  rw [hc.1]

/-- An invariant that withstands the rest and the operations named here is kept by every step. -/
theorem Stable.step [DecidableEq Path] {I : State Path → Prop} (hI : Stable page I) {s : State Path}
    (h : I s) (empty : Path) (op : Op Path) (hnormalize : I (s.normalize page).2)
    (hmap : op = .map ∨ op = .remap → I (s.map page).2)
    (hresize : ∀ newSize sync, op = .resize newSize sync → I (s.resize page newSize sync).2)
    (hturn : op = .turnNext → I (s.turnNext page).2) : I (s.step page empty op) := by
  cases op with
  | normalize => exact hnormalize
  | map => exact hmap (Or.inl rfl)
  | unmap => exact hI.unmap h
  | remap =>
      rw [State.step, remap]
      split
      · exact h
      · exact hmap (Or.inr rfl)
  | resize newSize sync => exact hresize newSize sync rfl
  | turnNext => exact hturn rfl
  | changeOffset val =>
      exact hI.change h _ fun q hq hm => hI.params hq hm ⟨rfl, rfl, hm, rfl, Or.inr ⟨rfl, rfl⟩⟩
  | changeSize val =>
      exact hI.change h _ fun q hq hm => hI.params hq hm ⟨rfl, rfl, hm, rfl, Or.inr ⟨rfl, rfl⟩⟩
  | changePath val =>
      refine hI.change h _ fun q hq hm => ?_
      by_cases hfd : q.obj.fd = none
      · rw [if_pos hfd]
        exact hI.params hq hm ⟨rfl, rfl, hm, rfl, Or.inl hfd⟩
      · rw [if_neg hfd]
        simp only
        cases hc : q.close.1 with
        | false => exact hI.same hq rfl rfl rfl
        | true => exact hI.params hq hm ⟨rfl, rfl, hm, rfl, Or.inl rfl⟩
  | changeHint val =>
      exact hI.change h _ fun q hq hm => hI.params hq hm ⟨rfl, rfl, hm, rfl, Or.inr ⟨rfl, rfl⟩⟩
  | changeMode val =>
      exact hI.change h _ fun q hq hm => hI.params hq hm ⟨rfl, rfl, hm, rfl, Or.inr ⟨rfl, rfl⟩⟩
  | clear force => exact hI.clear h empty force
  | construct path mode offset size hint =>
      have hd := hI.destroy h empty
      exact hI.params hd rfl ⟨rfl, rfl, rfl, rfl, Or.inl rfl⟩

end State

end CUtils.MappedFiles
