import CUtils.Parcel.Marshalling

/-!
# The buffer over whole runs

Every public operation other than `SetDataSize` keeps the invariant `Sound`, keeps the write
cursor at the end of the data (`Synced`) and keeps the index of the object check behind the read
cursor (`Steady`). `SetDataSize` moves the end of the data alone; `Sound` survives it as long as
the new end is not past the write cursor (`sound_step`).

The objects of these runs have bodies in `Marshals`.
-/

namespace CUtils

open StateRun ByteMemory Parcel

variable [Target]

/-! ## One step -/

/-- While the parcel can be written, the write cursor is the end of the data. -/
def Synced (p : Parcel) : Prop := p.writable = true → p.writeCursor = p.dataSize

structure Steady (p p' : Parcel) : Prop where
  sound : Sound p'
  synced : Synced p → Synced p'
  cached : Ordered p' → Cached p → Cached p'

theorem Extended.steady {p p' : Parcel} (h : Extended p p') : Steady p p' := by
  obtain ⟨n, hcur, hsize⟩ := h.moved
  refine ⟨h.sound, fun hs hw => ?_, h.cached⟩
  rw [hcur, hsize, hs (h.writable ▸ hw)]

theorem Steady.refl {p : Parcel} (hp : Sound p) : Steady p p := (Extended.refl hp).steady

theorem setMaxCapacity_steady {p : Parcel} (hp : Sound p) (n : UInt64) :
    Steady p ((setMaxCapacity n.toNat).run p).2 := by
  have hn : n.toNat < sizeLimit := n.toNat_lt
  have hge := hp.max_ge
  simp only [setMaxCapacity, run_bind, run_get]
  by_cases h : n.toNat > p.maxDataCapacity
  · rw [if_pos h]
    simp only [run_bind, run_set, run_pure]
    exact ⟨{ hp with max_ge := by show _ ≤ n.toNat; omega, max_lt := hn }, id, fun _ hc => hc⟩
  · rw [if_neg h]
    exact Steady.refl hp

theorem allocated_steady {p : Parcel} (hp : Sound p) : Steady p p.allocated := by
  have h : Extended p p.allocated := extended_of_same hp rfl rfl
  exact h.steady

/-- Calls of allocators are not seen. -/
theorem Steady.blocks {p p' : Parcel} (h : Steady p p') (b : Blocks) :
    Steady p { p' with blocks := b } := by
  have hs := h.sound
  exact ⟨{ hs with }, h.synced, fun ho hc => h.cached ⟨ho.check, ho.sorted⟩ hc⟩

theorem setDataCapacity_steady {p : Parcel} (hp : Sound p) (n : Nat) :
    Steady p ((setDataCapacity n).run p).2 := by
  rw [run_setDataCapacity]
  by_cases h : p.allocator.isNone = true ∨ p.dataSize ≥ n
  · rw [if_pos h]
    exact Steady.refl hp
  · rw [if_neg h]
    cases hg : p.grant n with
    | none => exact (allocated_steady hp).blocks _
    | some m =>
        refine ⟨?_, id, fun _ hc => hc⟩
        exact
          { hp with
            size_le := by show p.dataSize ≤ n; omega
            cap_le := grant_le hg
            null := fun hd => absurd hd (by simp [Parcel.regrown]) }

/-- What `SetAllocator` makes of a parcel. -/
inductive Parcel.AllocatorSet (p : Parcel) (a : Option Nat) : Parcel → Prop
  | refused : p.AllocatorSet a p
  /-- There is no block to move to, or `memcpy_s` does not copy and the block goes back. -/
  | failed {calls : List AllocatorCall}
      (h : calls = [.alloc a none] ∨
        calls = [.dealloc a (p.blocks.next a), .alloc a (p.blocks.next a)]) :
      p.AllocatorSet a { p.allocated with blocks := { p.blocks with calls := calls ++ p.blocks.calls } }
  | moved {fresh : Mem} (hsome : a.isSome = true) (hne : p.allocator ≠ a)
      (hdata : p.data.isSome = true ∧ p.dataSize > 0) (hgrant : p.grant p.dataSize = some fresh)
      (hcopied : p.dataSize ≤ Target.memMaxLen) :
      p.AllocatorSet a
        { p.allocated with
          data := some (p.bytes.keep p.dataSize fresh)
          dataCapacity := p.dataSize
          allocator := a
          blocks :=
            { current := some (p.blocks.next a)
              calls := .dealloc p.allocator p.blocks.current :: .alloc a (p.blocks.next a) ::
                p.blocks.calls } }
  | installed (hsome : a.isSome = true) (hne : p.allocator ≠ a)
      (hempty : ¬ (p.data.isSome = true ∧ p.dataSize > 0)) : p.AllocatorSet a { p with allocator := a }

theorem setAllocator_cases (p : Parcel) (a : Option Nat) :
    ∃ p', ((setAllocator a).run p).2 = p' ∧ p.AllocatorSet a p' := by
  refine ⟨_, rfl, ?_⟩
  simp only [setAllocator, run_bind, run_get]
  by_cases hkept : a.isNone = true ∨ p.allocator = a
  · rw [if_pos hkept]
    exact .refused
  · obtain ⟨hnone, hne⟩ := not_or.1 hkept
    have hsome : a.isSome = true := by
      rw [Option.isSome_iff_ne_none]
      intro heq
      exact hnone (by rw [heq]; rfl)
    rw [if_neg hkept]
    by_cases hd : p.data.isSome = true ∧ p.dataSize > 0
    · rw [if_pos hd]
      split
      · exact .refused
      · rw [run_bind, run_alloc]
        cases hgrant : p.grant p.dataSize with
        | none => exact .failed (Or.inl rfl)
        | some fresh =>
            dsimp only
            by_cases hlong : p.dataSize > Target.memMaxLen
            · rw [if_pos hlong]
              exact .failed (Or.inr rfl)
            · rw [if_neg hlong]
              exact .moved hsome hne hd hgrant (Nat.le_of_not_gt hlong)
    · rw [if_neg hd]
      exact .installed hsome hne hd

theorem setAllocator_steady {p : Parcel} (hp : Sound p) (a : Option Nat) :
    Steady p ((setAllocator a).run p).2 := by
  obtain ⟨p', hrun, hset⟩ := setAllocator_cases p a
  rw [hrun]
  cases hset with
  | refused => exact Steady.refl hp
  | failed _ => exact (allocated_steady hp).blocks _
  | moved _ _ _ hgrant _ =>
      refine ⟨?_, id, fun _ hc => hc⟩
      exact
        { hp with
          size_le := le_rfl
          cap_le := grant_le hgrant
          null := fun hd => by simp at hd }
  | installed _ _ _ => exact ⟨{ hp with }, id, fun _ hc => hc⟩

omit [Target] in
theorem setMaxCapacity_storage (p : Parcel) (n : Nat) : Storage p ((setMaxCapacity n).run p).2 := by
  simp only [setMaxCapacity, run_bind, run_get]
  split
  · rfl
  · rfl

omit [Target] in
theorem setDataCapacity_storage (p : Parcel) (n : Nat) :
    Storage p ((setDataCapacity n).run p).2 := by
  rw [run_setDataCapacity]
  split
  · rfl
  · cases p.grant n with
    | none => rfl
    | some m => rfl

theorem setAllocator_storage (p : Parcel) (a : Option Nat) :
    Storage p ((setAllocator a).run p).2 := by
  obtain ⟨p', hrun, hset⟩ := setAllocator_cases p a
  rw [hrun]
  cases hset with
  | refused => rfl
  | failed _ => rfl
  | moved _ _ _ _ _ => rfl
  | installed _ _ _ => rfl

/-- The state after the objects have been cleared. -/
def Parcel.cleared (p : Parcel) : Parcel := (clearObjects.run p).2

theorem cleared_steady {p p' : Parcel} (h : Steady p p') : Steady p p'.cleared := by
  have hs := h.sound
  refine ⟨{ hs with offsets_le := ?_, next_le := le_rfl }, h.synced, fun _ _ o ho => ?_⟩
  · intro o ho
    exact absurd ho (by simp [Parcel.cleared, clearObjects, Parcel.offsets])
  · exact absurd ho (by simp [Parcel.cleared, clearObjects])

/-- The state after the block has been given back. -/
def Parcel.flushed (p : Parcel) : Parcel :=
  { p with
    dataSize := 0, writeCursor := 0, readCursor := 0, dataCapacity := 0, data := none
    blocks := { current := none, calls := .dealloc p.allocator p.blocks.current :: p.blocks.calls } }

omit [Target] in
theorem flushed_sound {p : Parcel} (hp : Sound p) : Sound p.flushed :=
  { hp with
    size_le := le_rfl, cap_le := Nat.zero_le _, cursor_le := Nat.zero_le _
    read_le := Nat.zero_le _, null := fun _ => rfl, behind := fun _ => le_rfl }

omit [Target] in
theorem run_flushBuffer (p : Parcel) :
    (flushBuffer.run p).2 =
      if p.allocator.isNone = true then p
      else
        let q := if p.data.isSome = true then p.flushed else p
        if p.objectOffsets.isSome = true then q.cleared else q := by
  simp only [flushBuffer, run_bind, run_get]
  cases p.allocator.isNone with
  | true => rfl
  | false =>
      cases p.data.isSome with
      | true =>
          cases p.objectOffsets.isSome with
          | true => rfl
          | false => rfl
      | false =>
          cases p.objectOffsets.isSome with
          | true => rfl
          | false => rfl

/-- The read cursor goes to the start; the index was zero or is cleared with the objects. -/
theorem flushed_steady {p : Parcel} (hp : Sound p) (ho : p.objectOffsets.isSome = false) :
    Steady p p.flushed := by
  have hnil : p.offsets = [] := by
    rw [Parcel.offsets, Option.isNone_iff_eq_none.1 (Option.isSome_eq_false_iff.1 ho)]
    rfl
  refine ⟨flushed_sound hp, fun _ _ => rfl, fun _ _ o hmem => ?_⟩
  change o ∈ p.offsets.take p.nextObjectIdx at hmem
  rw [hnil, List.take_nil] at hmem
  exact absurd hmem (by simp)

theorem flushBuffer_steady {p : Parcel} (hp : Sound p) : Steady p (flushBuffer.run p).2 := by
  rw [run_flushBuffer]
  split
  · exact Steady.refl hp
  · dsimp only
    cases ho : p.objectOffsets.isSome with
    | true =>
        cases p.data.isSome with
        | true =>
            refine ⟨(cleared_steady (Steady.refl (flushed_sound hp))).sound, fun _ _ => rfl, ?_⟩
            exact fun _ _ o hmem => absurd hmem (by simp [Parcel.cleared, clearObjects])
        | false => exact cleared_steady (Steady.refl hp)
    | false =>
        cases p.data.isSome with
        | true => exact flushed_steady hp ho
        | false => exact Steady.refl hp

/-- The state after a block of the driver has been taken over. -/
def Parcel.parsed (p : Parcel) (data : Option Mem) (size : Nat) : Parcel :=
  { p with
    data := data, dataCapacity := size, dataSize := size, writable := false
    blocks := { p.blocks with current := data.map fun _ => p.blocks.next none } }

theorem run_parseFrom (p : Parcel) (data : Option Mem) (size : Nat) :
    ((parseFrom data size).run p).2 =
      if p.data.isSome = true then p
      else if Target.objectCheck = true ∧ p.objectOffsets.isSome = true then
        (p.parsed data size).cleared
      else p.parsed data size := by
  simp only [parseFrom, run_bind, run_get]
  by_cases h : p.data.isSome = true
  · rw [if_pos h, if_pos h, run_pure]
  · rw [if_neg h, if_neg h, run_bind]
    by_cases hc : Target.objectCheck = true ∧ p.objectOffsets.isSome = true
    · rw [if_pos hc, if_pos hc]
      rfl
    · rw [if_neg hc, if_neg hc]
      rfl

theorem parseFrom_steady {p : Parcel} (hp : Sound p) {data : Option Mem} {size : Nat}
    (hsize : size ≤ ptrdiffMax) (hnull : data = none → size = 0) :
    Steady p ((parseFrom data size).run p).2 := by
  have hq : Steady p (p.parsed data size) :=
    ⟨{ hp with
        size_le := le_rfl, cap_le := hsize, null := hnull
        behind := fun hw => absurd hw (by simp [Parcel.parsed]) },
      fun _ hw => absurd hw (by simp [Parcel.parsed]), fun _ hc => hc⟩
  rw [run_parseFrom]
  split
  · exact Steady.refl hp
  · split
    · exact cleared_steady hq
    · exact hq

/-! ### Rewinding the write cursor -/

def Parcel.rewound (p : Parcel) (n : Nat) : Parcel := { p with writeCursor := n, dataSize := n }

/-- The state after the offset table has been cut to its first `k` entries. -/
def Parcel.cut (p : Parcel) (k : Nat) : Parcel :=
  { p with
    objectOffsets := some (p.offsets.take k)
    objectsCapacity := k
    objectHolder := resizeHolder p.objectHolder k
    nextObjectIdx := 0
    held := p.held.filter fun h => h.1 ∈ p.offsets.take k }

omit [Target] in
theorem keptObjects_le (objects : List Nat) (newPosition n : Nat) :
    keptObjects objects newPosition n ≤ n := by
  induction n with
  | zero => exact le_rfl
  | succ n ih =>
      rw [keptObjects]
      split
      · exact le_rfl
      · exact ih.trans (Nat.le_succ n)

theorem run_rewindWrite (p : Parcel) (n : Nat) :
    (rewindWrite n).run p =
      if n > p.dataSize then (false, p)
      else if Target.objectCheck = false ∨ p.offsets = [] ∨
          szAdd (p.offsets.getD (p.objectCursor - 1) 0) flatSize ≤ n then (true, p.rewound n)
      else
        let k := keptObjects p.offsets n p.objectCursor
        if k = 0 then (true, (p.rewound n).cleared)
        else (p.grant (szMul k binderSize)).elim (false, (p.rewound n).allocated) fun _ =>
          (true, (p.rewound n).allocated.cut k) := by
  simp only [rewindWrite, run_bind, run_get]
  by_cases h : n > p.dataSize
  · rw [if_pos h, if_pos h, run_pure]
  · rw [if_neg h, if_neg h]
    simp only [run_bind, run_set]
    cases hcheck : Target.objectCheck with
    | false => rfl
    | true =>
        have hempty : (p.objectOffsets.isNone = true ∨ p.objectCursor = 0) ↔ p.offsets = [] := by
          constructor
          · rintro (h | h)
            · simp [Parcel.offsets, Option.isNone_iff_eq_none.1 h]
            · exact List.eq_nil_of_length_eq_zero h
          · intro h
            exact Or.inr (by rw [Parcel.objectCursor, h, List.length_nil])
        simp only [Bool.not_true, Bool.false_eq_true, if_false, Bool.true_eq_false, false_or]
        by_cases hnil : p.offsets = []
        · rw [if_pos (hempty.2 hnil), if_pos (Or.inl hnil)]
          rfl
        · rw [if_neg (fun h => hnil (hempty.1 h))]
          by_cases hlast : szAdd (p.offsets.getD (p.objectCursor - 1) 0) flatSize ≤ n
          · rw [if_neg (Nat.not_lt.2 hlast), if_pos (Or.inr hlast)]
            rfl
          · have hno : ¬ (p.offsets = [] ∨
                szAdd (p.offsets.getD (p.objectCursor - 1) 0) flatSize ≤ n) :=
              fun h => h.elim hnil hlast
            rw [if_pos (Nat.lt_of_not_le hlast), if_neg hno]
            by_cases hk : keptObjects p.offsets n p.objectCursor = 0
            · rw [if_pos hk, if_pos hk]
              rfl
            · rw [if_neg hk, if_neg hk, run_bind, run_alloc]
              have hg : Parcel.grant { p with writeCursor := n, dataSize := n }
                  (szMul (keptObjects p.offsets n p.objectCursor) binderSize) =
                  p.grant (szMul (keptObjects p.offsets n p.objectCursor) binderSize) := rfl
              rw [hg]
              cases p.grant (szMul (keptObjects p.offsets n p.objectCursor) binderSize) with
              | none => rfl
              | some m => rfl

/-- The block and what decides about it are as before, and so are the accesses. -/
structure SameBlock (p p' : Parcel) : Prop where
  data : p'.data = p.data
  dataCapacity : p'.dataCapacity = p.dataCapacity
  maxDataCapacity : p'.maxDataCapacity = p.maxDataCapacity
  allocator : p'.allocator = p.allocator
  blocks : p'.blocks = p.blocks
  writable : p'.writable = p.writable
  log : p'.log = p.log

theorem rewindWrite_sameBlock (p : Parcel) (n : Nat) : SameBlock p ((rewindWrite n).run p).2 := by
  rw [run_rewindWrite]
  dsimp only
  split
  · exact ⟨rfl, rfl, rfl, rfl, rfl, rfl, rfl⟩
  · split
    · exact ⟨rfl, rfl, rfl, rfl, rfl, rfl, rfl⟩
    · split
      · exact ⟨rfl, rfl, rfl, rfl, rfl, rfl, rfl⟩
      · cases p.grant (szMul (keptObjects p.offsets n p.objectCursor) binderSize) with
        | none => exact ⟨rfl, rfl, rfl, rfl, rfl, rfl, rfl⟩
        | some m => exact ⟨rfl, rfl, rfl, rfl, rfl, rfl, rfl⟩

theorem rewindWrite_steady {p : Parcel} (hp : Sound p) (n : Nat) :
    Steady p ((rewindWrite n).run p).2 := by
  rw [run_rewindWrite]
  by_cases h : n > p.dataSize
  · rw [if_pos h]
    exact Steady.refl hp
  · rw [if_neg h]
    have hsize := hp.size_le
    have hcap := hp.cap_le
    have hrew : Steady p (p.rewound n) :=
      ⟨{ hp with
          size_le := by show n ≤ p.dataCapacity; omega
          cursor_le := by show n ≤ ptrdiffMax; omega
          behind := fun _ => le_rfl },
        fun _ _ => rfl, fun _ hc => hc⟩
    by_cases hkeep : Target.objectCheck = false ∨ p.offsets = [] ∨
        szAdd (p.offsets.getD (p.objectCursor - 1) 0) flatSize ≤ n
    · rw [if_pos hkeep]
      exact hrew
    · rw [if_neg hkeep]
      dsimp only
      by_cases hk : keptObjects p.offsets n p.objectCursor = 0
      · rw [if_pos hk]
        exact cleared_steady hrew
      · rw [if_neg hk]
        have halloc := allocated_steady hrew.sound
        have hs := halloc.sound
        cases p.grant (szMul (keptObjects p.offsets n p.objectCursor) binderSize) with
        | none => exact ⟨hs, fun hsy => halloc.synced (hrew.synced hsy), fun _ hc => hc⟩
        | some m =>
            refine ⟨{ hs with offsets_le := ?_, next_le := Nat.zero_le _ },
              fun hsy => halloc.synced (hrew.synced hsy), fun _ _ o ho => ?_⟩
            · intro o ho
              exact hp.offsets_le o (List.mem_of_mem_take ho)
            · exact absurd ho (by simp [Parcel.cut])

/-! ## Whole runs -/

/-- The call is one of `SetDataSize`. -/
def Op.SetsSize : Op → Prop
  | setDataSize _ => True
  | _ => False

theorem steady_step {p : Parcel} (hp : Sound p) {op : Op} (h : ¬ op.SetsSize) :
    Steady p (p.step op) := by
  cases op with
  | write w => exact (w.extends p hp).steady
  | read m hm => exact (hm.extends p hp).steady
  | writeRemoteObject o => exact (writeRemoteObject_extends o.extends p hp).steady
  | writeParcelable o => exact (writeParcelable_extends o.extends p hp).steady
  | writeStrongParcelable o => exact (writeStrongParcelable_extends o.extends p hp).steady
  | injectOffsets offsets => exact (injectOffsets_extends offsets p hp).steady
  | setMaxCapacity n => exact setMaxCapacity_steady hp n
  | setDataCapacity n => exact setDataCapacity_steady hp n
  | setDataSize n => exact absurd trivial h
  | setAllocator a => exact setAllocator_steady hp a
  | skipBytes n => exact (skipBytes_extends n p hp).steady
  | rewindRead n => exact (rewindRead_extends n p hp).steady
  | rewindWrite n => exact rewindWrite_steady hp n
  | flushBuffer => exact flushBuffer_steady hp
  | parseFrom data size hsize hnull => exact parseFrom_steady hp hsize hnull

/-! ## `SetDataSize` -/

/-- A call of `SetDataSize` on a parcel that can be written does not go past the write cursor. -/
def Op.Within (p : Parcel) : Op → Prop
  | setDataSize n => p.writable = true → n ≤ p.writeCursor
  | _ => True

omit [Target] in
theorem run_setDataSize (p : Parcel) (n : Nat) :
    (setDataSize n).run p =
      if n > p.dataCapacity then (false, p) else (true, { p with dataSize := n }) := by
  simp only [setDataSize, run_bind, run_get]
  by_cases h : n > p.dataCapacity
  · rw [if_pos h, if_pos h, run_pure]
  · rw [if_neg h, if_neg h]
    rfl

omit [Target] in
theorem setDataSize_sameBlock (p : Parcel) (n : Nat) : SameBlock p ((setDataSize n).run p).2 := by
  rw [run_setDataSize]
  split
  · exact ⟨rfl, rfl, rfl, rfl, rfl, rfl, rfl⟩
  · exact ⟨rfl, rfl, rfl, rfl, rfl, rfl, rfl⟩

omit [Target] in
theorem setDataSize_sound {p : Parcel} (hp : Sound p) {n : Nat}
    (h : p.writable = true → n ≤ p.writeCursor) : Sound ((setDataSize n).run p).2 := by
  rw [run_setDataSize]
  by_cases hn : n > p.dataCapacity
  · rw [if_pos hn]
    exact hp
  · rw [if_neg hn]
    exact { hp with size_le := Nat.le_of_not_lt hn, behind := h }

theorem sound_step {p : Parcel} (hp : Sound p) {op : Op} (h : op.Within p) : Sound (p.step op) := by
  by_cases hset : op.SetsSize
  · cases op with
    | setDataSize n => exact setDataSize_sound hp h
    | _ => exact absurd hset id
  · exact (steady_step hp hset).sound

theorem sound_run {p : Parcel} (hp : Sound p) {ops : List Op}
    (h : Along (fun q op => Op.Within q op) Parcel.step p ops) : Sound (p.run ops) :=
  Along.invariant (I := Sound) (fun _ _ hop hq => sound_step hq hop) h hp

end CUtils
