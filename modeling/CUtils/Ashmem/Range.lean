import CUtils.Ashmem.Release

/-!
# The range check

`CheckValid` bounds the size and the offset by the size of the region and then compares their sum,
which is an `int32_t` like them. Where the sum overflows it comes out negative and passes, so the
check accepts the ranges inside the region and those whose sum wraps (`checkValid_iff`). There are
ranges of the second kind once the region has 1 GiB (`exists_wraps_iff`).

`WriteToAshmem` is saved by `memcpy_s`, which refuses what does not fit but wipes the rest of the
region then. `ReadFromAshmem` has no second check.
-/

namespace CUtils.Ashmems

open ByteMemory StateRun

/-- The bytes from `offset` are in the region, and their end is an `int32_t`. -/
structure InRange (s : Ashmem) (size offset : BitVec 32) : Prop where
  offset_nonneg : 0 ≤ offset.toInt
  size_nonneg : 0 ≤ size.toInt
  fits : offset.toInt + size.toInt ≤ s.memorySize.toInt
  noOverflow : offset.saddOverflow size = false

/-- Each of the two is in the region, and their sum is no `int32_t`. -/
structure Wraps (s : Ashmem) (size offset : BitVec 32) : Prop where
  offset_nonneg : 0 ≤ offset.toInt
  offset_le : offset.toInt ≤ s.memorySize.toInt
  size_nonneg : 0 ≤ size.toInt
  size_le : size.toInt ≤ s.memorySize.toInt
  overflow : offset.saddOverflow size = true

/-- The region is mapped, and both the kernel and the mapping allow the access. -/
structure Permits (s : Ashmem) (cmd protection : BitVec 32) : Prop where
  mapped : s.startAddr ≠ none
  protection : protection &&& cmd ≠ 0
  flag : s.flag &&& cmd ≠ 0

variable {s : Ashmem} {size offset cmd protection : BitVec 32}

/-! ## The sum -/

theorem saddOverflow_iff {x y : BitVec 32} (hx : 0 ≤ x.toInt) (hy : 0 ≤ y.toInt) :
    x.saddOverflow y = true ↔ 2 ^ 31 ≤ x.toInt + y.toInt := by
  rw [BitVec.saddOverflow, Bool.or_eq_true, decide_eq_true_eq, decide_eq_true_eq]
  omega

/-- The sum of two values that are not negative is right, or negative. -/
theorem sum_toInt {x y : BitVec 32} (hx : 0 ≤ x.toInt) (hy : 0 ≤ y.toInt) :
    x.saddOverflow y = false ∧ (x + y).toInt = x.toInt + y.toInt ∨
      x.saddOverflow y = true ∧ (x + y).toInt < 0 := by
  have hx' : x.toInt < 2 ^ 31 := BitVec.toInt_lt
  have hy' : y.toInt < 2 ^ 31 := BitVec.toInt_lt
  cases hover : x.saddOverflow y with
  | false =>
      exact Or.inl ⟨rfl, BitVec.toInt_add_of_not_saddOverflow (by rw [hover]; exact Bool.false_ne_true)⟩
  | true =>
      have hlarge := (saddOverflow_iff hx hy).1 hover
      refine Or.inr ⟨rfl, ?_⟩
      rw [BitVec.toInt_add, Int.bmod_def]
      omega

theorem InRange.not_wraps (h : InRange s size offset) : ¬ Wraps s size offset := by
  intro hwraps
  have hover := hwraps.overflow
  rw [h.noOverflow] at hover
  exact Bool.false_ne_true hover

/-- The bounds `CheckValid` tests. -/
theorem bounds_iff : (0 ≤ size.toInt ∧ size.toInt ≤ s.memorySize.toInt ∧ 0 ≤ offset.toInt ∧
    offset.toInt ≤ s.memorySize.toInt ∧ (offset + size).toInt ≤ s.memorySize.toInt) ↔
      InRange s size offset ∨ Wraps s size offset := by
  constructor
  · rintro ⟨hsize, hsize', hoffset, hoffset', hsum⟩
    rcases sum_toInt hoffset hsize with ⟨hover, heq⟩ | ⟨hover, -⟩
    · rw [heq] at hsum
      exact Or.inl ⟨hoffset, hsize, hsum, hover⟩
    · exact Or.inr ⟨hoffset, hoffset', hsize, hsize', hover⟩
  · rintro (h | h)
    · have hoffset := h.offset_nonneg
      have hsize := h.size_nonneg
      have hfits := h.fits
      rcases sum_toInt hoffset hsize with ⟨-, heq⟩ | ⟨hover, -⟩
      · omega
      · rw [h.noOverflow] at hover
        cases hover
    · have hoffset := h.offset_nonneg
      have hoffset' := h.offset_le
      rcases sum_toInt hoffset h.size_nonneg with ⟨hover, -⟩ | ⟨-, hneg⟩
      · rw [h.overflow] at hover
        cases hover
      · exact ⟨h.size_nonneg, h.size_le, hoffset, hoffset', by omega⟩

/-- What passes is in the region, or wraps. -/
theorem checkValid_iff : s.checkValid size offset cmd protection = true ↔
    Permits s cmd protection ∧ (InRange s size offset ∨ Wraps s size offset) := by
  rw [← bounds_iff, Ashmem.checkValid]
  by_cases hmapped : s.startAddr = none
  · rw [if_pos (by rw [hmapped]; rfl)]
    exact iff_of_false Bool.false_ne_true fun h => h.1.mapped hmapped
  · rw [if_neg (by simpa using hmapped)]
    by_cases hbounds : size.toInt < 0 ∨ size.toInt > s.memorySize.toInt ∨ offset.toInt < 0 ∨
        offset.toInt > s.memorySize.toInt
    · rw [if_pos hbounds]
      exact iff_of_false Bool.false_ne_true fun h => by omega
    · rw [if_neg hbounds]
      by_cases hsum : (offset + size).toInt > s.memorySize.toInt
      · rw [if_pos hsum]
        exact iff_of_false Bool.false_ne_true fun h => by omega
      · rw [if_neg hsum]
        by_cases hallowed : protection &&& cmd = 0 ∨ s.flag &&& cmd = 0
        · rw [if_pos hallowed]
          refine iff_of_false Bool.false_ne_true fun h => ?_
          exact hallowed.elim h.1.protection h.1.flag
        · rw [if_neg hallowed]
          obtain ⟨hprotection, hflag⟩ := not_or.1 hallowed
          exact iff_of_true rfl ⟨⟨hmapped, hprotection, hflag⟩, by omega⟩

/-! ## Large regions -/

theorem Wraps.large (h : Wraps s size offset) : 2 ^ 30 ≤ s.memorySize.toInt := by
  have hsum := (saddOverflow_iff h.offset_nonneg h.size_nonneg).1 h.overflow
  have hoffset := h.offset_le
  have hsize := h.size_le
  omega

theorem exists_wraps_iff : (∃ size offset, Wraps s size offset) ↔ 2 ^ 30 ≤ s.memorySize.toInt := by
  refine ⟨fun ⟨size, offset, h⟩ => h.large, fun h => ⟨s.memorySize, s.memorySize, ?_⟩⟩
  have hnonneg : 0 ≤ s.memorySize.toInt := by omega
  exact ⟨hnonneg, le_rfl, hnonneg, le_rfl, (saddOverflow_iff hnonneg hnonneg).2 (by omega)⟩

/-! ## Reading -/

theorem readFromAshmem_ne_none_iff : s.readFromAshmem size offset protection ≠ none ↔
    Permits s protRead protection ∧ (InRange s size offset ∨ Wraps s size offset) := by
  rw [← checkValid_iff, Ashmem.readFromAshmem]
  cases s.checkValid size offset protRead protection with
  | true => exact iff_of_true nofun rfl
  | false => exact iff_of_false (fun h => h rfl) Bool.false_ne_true

/-! ## Writing -/

theorem toNat_of_nonneg {w : Nat} {n : BitVec w} (h : 0 ≤ n.toInt) : (n.toNat : Int) = n.toInt := by
  have hlt := n.isLt
  rw [BitVec.toInt_eq_toNat_cond] at h ⊢
  split at h
  · rw [if_pos ‹_›]
  · omega

theorem sizeArg_of_nonneg {n : BitVec 32} (h : 0 ≤ n.toInt) : (sizeArg n : Int) = n.toInt := by
  have hsame : (n.signExtend 64).toInt = n.toInt := BitVec.toInt_signExtend_of_le (by decide)
  rw [sizeArg, toNat_of_nonneg (by rw [hsame]; exact h), hsame]

/-- The room behind the offset. -/
theorem sizeArg_rest (hoffset : 0 ≤ offset.toInt) (hle : offset.toInt ≤ s.memorySize.toInt) :
    (sizeArg (s.memorySize - offset) : Int) = s.memorySize.toInt - offset.toInt := by
  have hlt : s.memorySize.toInt < 2 ^ 31 := BitVec.toInt_lt
  have hsub : (s.memorySize - offset).toInt = s.memorySize.toInt - offset.toInt := by
    rw [BitVec.toInt_sub, Int.bmod_eq_of_le (by omega) (by omega)]
  rw [sizeArg_of_nonneg (by omega), hsub]

/-- `WriteToAshmem` after its checks. -/
theorem writeToAshmem_of_valid (h : s.checkValid size offset protWrite protection = true)
    (data : Mem) : s.writeToAshmem (some data) size offset protection =
      s.memcpyS offset.toNat (sizeArg (s.memorySize - offset)) data (sizeArg size) := by
  rw [Ashmem.writeToAshmem, h]
  rfl

theorem memcpyS_fst (pos destMax : Nat) (src : Mem) (count : Nat) :
    (s.memcpyS pos destMax src count).1 = true ↔ destMax ≠ 0 ∧ count ≤ destMax := by
  unfold Ashmem.memcpyS
  split
  · simp_all
  · split
    · simp_all
    · simp_all

/-- What wraps does not fit. -/
theorem Wraps.lt_sizeArg (h : Wraps s size offset) :
    sizeArg (s.memorySize - offset) < sizeArg size := by
  have hrest := sizeArg_rest h.offset_nonneg h.offset_le
  have hsize := sizeArg_of_nonneg h.size_nonneg
  have hsum := (saddOverflow_iff h.offset_nonneg h.size_nonneg).1 h.overflow
  have hlt : s.memorySize.toInt < 2 ^ 31 := BitVec.toInt_lt
  omega

/-- A write whose sum wraps copies nothing, but the region is wiped from the offset on. -/
theorem writeToAshmem_of_wraps (h : Wraps s size offset) (hpermits : Permits s protWrite protection)
    (data : Mem) :
    let (written, s') := s.writeToAshmem (some data) size offset protection
    written = false ∧ ∀ i, s'.content i =
      if offset.toInt ≤ i ∧ i < s.memorySize.toInt then 0 else s.content i := by
  have hpos := toNat_of_nonneg h.offset_nonneg
  have hrest := sizeArg_rest h.offset_nonneg h.offset_le
  rw [writeToAshmem_of_valid (checkValid_iff.2 ⟨hpermits, Or.inr h⟩), Ashmem.memcpyS]
  by_cases hempty : sizeArg (s.memorySize - offset) = 0
  · rw [if_pos hempty]
    refine ⟨rfl, fun i => ?_⟩
    rw [if_neg (by omega)]
  · rw [if_neg hempty, if_pos h.lt_sizeArg]
    refine ⟨rfl, fun i => ?_⟩
    exact if_congr (by omega) rfl rfl

/-- What is written is in the region. -/
theorem writeToAshmem_inRange {data : Option Mem}
    (h : (s.writeToAshmem data size offset protection).1 = true) : InRange s size offset := by
  cases data with
  | none => exact absurd h Bool.false_ne_true
  | some data =>
      cases hvalid : s.checkValid size offset protWrite protection with
      | false =>
          rw [Ashmem.writeToAshmem, hvalid] at h
          exact absurd h Bool.false_ne_true
      | true =>
          rw [writeToAshmem_of_valid hvalid, memcpyS_fst] at h
          refine (checkValid_iff.1 hvalid).2.resolve_right fun hwraps => ?_
          have hlt := hwraps.lt_sizeArg
          omega

/-! ## Accesses -/

/-- **What is accepted is in the region**, except for reads whose size and offset are both in the
region and whose sum is no `int32_t`. -/
theorem accepted_inRange_iff (s : Ashmem) (data : Option Mem)
    (size offset readable writable : BitVec 32) :
    (s.readFromAshmem size offset readable ≠ none ∨
        (s.writeToAshmem data size offset writable).1 = true → InRange s size offset) ↔
      ¬ (Permits s protRead readable ∧ Wraps s size offset) := by
  constructor
  · rintro h ⟨hpermits, hwraps⟩
    have hread := readFromAshmem_ne_none_iff.2 ⟨hpermits, Or.inr hwraps⟩
    exact (h (Or.inl hread)).not_wraps hwraps
  · rintro h (hread | hwrite)
    · obtain ⟨hpermits, hrange⟩ := readFromAshmem_ne_none_iff.1 hread
      exact hrange.resolve_right fun hwraps => h ⟨hpermits, hwraps⟩
    · exact writeToAshmem_inRange hwrite

/-- A region of 1 GiB is read behind its end. -/
theorem gibibyte_accepted :
    let s := (Ashmem.new 3 0x40000000).run [.mapReadAndWriteAshmem (some 0x10000)]
    s.readFromAshmem 0x40000000 0x40000000 protRead ≠ none ∧
      ¬ InRange s 0x40000000 0x40000000 := by
  refine ⟨by decide, fun h => ?_⟩
  exact absurd h.noOverflow (by decide)

/-! ## Small regions -/

/-- Only `CloseAshmem` changes the size. -/
theorem memorySize_step (s : Ashmem) (op : Op) :
    (s.step op).memorySize = s.memorySize ∨ (s.step op).memorySize = 0 := by
  have hmap : ∀ mapType answer, (s.mapAshmem mapType answer).2.memorySize = s.memorySize := by
    intro mapType answer
    rw [Ashmem.mapAshmem]
    cases mmap (sizeArg s.memorySize) s.memoryFd answer <;> rfl
  cases op with
  | mapAshmem mapType answer => exact Or.inl (hmap mapType answer)
  | mapReadAndWriteAshmem answer => exact Or.inl (hmap _ answer)
  | mapReadOnlyAshmem answer => exact Or.inl (hmap _ answer)
  | unmapAshmem =>
      refine Or.inl ?_
      show s.unmapAshmem.memorySize = s.memorySize
      unfold Ashmem.unmapAshmem
      cases s.startAddr <;> rfl
  | closeAshmem => exact Or.inr rfl
  | writeToAshmem data size offset protection =>
      refine Or.inl ?_
      show (s.writeToAshmem data size offset protection).2.memorySize = s.memorySize
      rw [writeToAshmem_mappings]
  | readFromAshmem size offset protection => exact Or.inl rfl

theorem memorySize_run (s : Ashmem) (ops : List Op) :
    (s.run ops).memorySize = s.memorySize ∨ (s.run ops).memorySize = 0 := by
  induction ops generalizing s with
  | nil => exact Or.inl rfl
  | cons op ops ih =>
      rcases ih (s.step op) with hrest | hzero
      · exact (memorySize_step s op).imp hrest.trans hrest.trans
      · exact Or.inr hzero

/-- **Below 1 GiB** the check is right in every state of every run. -/
theorem accepted_inRange_of_small {fd : Int} {created : BitVec 32} (hsmall : created.toInt < 2 ^ 30)
    (ops : List Op) (data : Option Mem) (size offset readable writable : BitVec 32) :
    let s := (Ashmem.new fd created).run ops
    s.readFromAshmem size offset readable ≠ none ∨
      (s.writeToAshmem data size offset writable).1 = true → InRange s size offset := by
  intro s haccepted
  have hnot : ¬ Wraps s size offset := by
    intro hwraps
    have hlarge := hwraps.large
    rcases memorySize_run (Ashmem.new fd created) ops with hsame | hzero
    · rw [show s.memorySize = created from hsame] at hlarge
      omega
    · rw [show s.memorySize = 0 from hzero] at hlarge
      exact absurd hlarge (by decide)
  rcases haccepted with hread | hwrite
  · exact (readFromAshmem_ne_none_iff.1 hread).2.resolve_right hnot
  · exact writeToAshmem_inRange hwrite

end CUtils.Ashmems
