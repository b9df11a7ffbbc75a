import CUtils.Parcel.Invariant

/-!
# What `EnsureWritableCapacity` promises

A request is granted when the block has the room or can be made larger. The size of the larger
block is computed from `desireCapacity + writeCursor_`, and that sum is not checked: when it wraps
around, the block is made larger for a sum that is below the cursor, and the call returns `true`
although the room is not there.

`ensureWritableCapacity_keeps_iff` says for which requests this happens. Blocks grown by the parcel
itself are already as large as the wrapped sum asks for; it takes `SetDataCapacity` to have a
smaller one.
-/

namespace CUtils

open StateRun ByteMemory Parcel

/-- The block can be made larger for the request. -/
def Parcel.Grows (p : Parcel) (n : Nat) : Prop :=
  p.writable = true ∧ p.dataCapacity < p.newCapacity n ∧
    szAdd n p.writeCursor ≤ p.newCapacity n ∧ p.allocator.isSome = true ∧
    (p.grant (p.newCapacity n)).isSome = true

instance (p : Parcel) (n : Nat) : Decidable (p.Grows n) := inferInstanceAs (Decidable (_ ∧ _))

/-- What `EnsureWritableCapacity(n)` promises in the state `p`. -/
structure KeepsPromise (p : Parcel) (n : Nat) : Prop where
  granted : ((ensureWritableCapacity n).run p).1 = true →
    ((ensureWritableCapacity n).run p).2.data.isSome = true ∧
      n ≤ ((ensureWritableCapacity n).run p).2.getWritableBytes
  /-- The sum is taken only when the block has to grow. -/
  exact : ((ensureWritableCapacity n).run p).1 = true → ¬ n ≤ p.getWritableBytes →
    szAdd n p.writeCursor = n + p.writeCursor
  refused : ((ensureWritableCapacity n).run p).1 = false →
    ∃ heap blocks,
      ((ensureWritableCapacity n).run p).2 = { p with heap := heap, blocks := blocks }

/-! ## One request -/

/-- The block grows for a request that is not declined, if the allocation succeeds. -/
theorem grows_iff {p : Parcel} {n : Nat} :
    p.Grows n ↔ p.writable = true ∧ ¬ p.Declines n ∧ (p.grant (p.newCapacity n)).isSome = true := by
  rw [Parcel.Grows, Parcel.Declines, not_or, not_or, not_le, not_lt, Bool.not_eq_true,
    Option.isNone_eq_false_iff]
  simp only [and_assoc]

/-- A request the block has room for. -/
theorem ensure_room {p : Parcel} {n : Nat} (hw : p.writable = true)
    (hroom : n ≤ p.getWritableBytes) :
    (ensureWritableCapacity n).run p = (p.data.isSome, p) := by
  rw [run_ensureWritableCapacity, if_neg (by simp [hw]), if_pos hroom]

/-- A request the block has to grow for. -/
theorem ensure_grows {p : Parcel} {n : Nat} (hroom : ¬ n ≤ p.getWritableBytes)
    (hgrows : p.Grows n) :
    ∃ fresh, (ensureWritableCapacity n).run p = (true, p.regrown (p.newCapacity n) fresh) := by
  obtain ⟨hw, hdeclines, hgrant⟩ := grows_iff.1 hgrows
  obtain ⟨fresh, hfresh⟩ := Option.isSome_iff_exists.1 hgrant
  rw [run_ensureWritableCapacity, if_neg (by simp [hw]), if_neg hroom, if_neg hdeclines, hfresh]
  exact ⟨fresh, rfl⟩

/-- A request that is turned down. -/
theorem ensure_refused {p : Parcel} {n : Nat} (hroom : ¬ n ≤ p.getWritableBytes)
    (hgrows : ¬ p.Grows n) :
    ∃ heap blocks,
      (ensureWritableCapacity n).run p = (false, { p with heap := heap, blocks := blocks }) := by
  rw [run_ensureWritableCapacity, if_neg hroom]
  split
  · exact ⟨p.heap, p.blocks, rfl⟩
  · rename_i hw
    split
    · exact ⟨p.heap, p.blocks, rfl⟩
    · rename_i hdeclines
      cases hg : p.grant (p.newCapacity n) with
      | none => exact ⟨_, _, rfl⟩
      | some fresh =>
          have hgrant : (p.grant (p.newCapacity n)).isSome = true := by rw [hg]; rfl
          exact absurd (grows_iff.2 ⟨by simpa using hw, hdeclines, hgrant⟩) hgrows

/-- **The promise is kept exactly as long as the sum does not wrap around**, or the request as it
wraps is turned down. -/
theorem keepsPromise_iff {p : Parcel} (hp : Sound p) (n : Nat) :
    KeepsPromise p n ↔ n + p.writeCursor < sizeLimit ∨ ¬ p.Grows n := by
  have hcap := hp.cap_le
  have hcur := hp.cursor_le
  by_cases hroom : n ≤ p.getWritableBytes
  · -- the block has the room, and lies far below the limit
    have hlt : n + p.writeCursor < sizeLimit := by
      have := le_getWritableBytes.1 hroom
      simp only [ptrdiffMax, sizeLimit] at *
      omega
    refine iff_of_true ?_ (Or.inl hlt)
    by_cases hw : p.writable = true
    · have hrun := ensure_room hw hroom
      refine ⟨fun hok => ?_, fun _ hno => absurd hroom hno, fun _ => ?_⟩
      · rw [hrun] at hok ⊢
        exact ⟨hok, hroom⟩
      · rw [hrun]
        exact ⟨p.heap, p.blocks, rfl⟩
    · have hrun : (ensureWritableCapacity n).run p = (false, p) := by
        rw [run_ensureWritableCapacity, if_pos (by simpa using hw)]
      refine ⟨fun hok => ?_, fun _ hno => absurd hroom hno, fun _ => ?_⟩
      · rw [hrun] at hok
        cases hok
      · rw [hrun]
        exact ⟨p.heap, p.blocks, rfl⟩
  · by_cases hgrows : p.Grows n
    · obtain ⟨m, hrun⟩ := ensure_grows hroom hgrows
      have hge := hgrows.2.2.1
      constructor
      · intro hkeeps
        have hsum := hkeeps.exact (by rw [hrun]) hroom
        have := szAdd_lt n p.writeCursor
        exact Or.inl (by omega)
      · intro hlt
        have hlt := hlt.resolve_right (not_not.2 hgrows)
        rw [szAdd_of_lt hlt] at hge
        refine ⟨fun _ => ?_, fun _ _ => szAdd_of_lt hlt, fun hfail => ?_⟩
        · rw [hrun]
          refine ⟨rfl, le_getWritableBytes.2 (Or.inr ?_)⟩
          show p.writeCursor + n ≤ p.newCapacity n
          omega
        · rw [hrun] at hfail
          cases hfail
    · obtain ⟨heap, blocks, hrun⟩ := ensure_refused hroom hgrows
      refine iff_of_true ⟨fun hok => ?_, fun hok => ?_, fun _ => ?_⟩ (Or.inr hgrows)
      · rw [hrun] at hok
        cases hok
      · rw [hrun] at hok
        cases hok
      · rw [hrun]
        exact ⟨heap, blocks, rfl⟩

/-! ## The requests of the writers -/

/-- What the writers ask for: a block with its padding, once the size has passed the overflow test;
a scalar; the padding of a vector. -/
inductive Request : Nat → Prop
  | block {size : Nat} (h0 : 0 < size)
      (hguard : ¬ (szAdd size (getPadSize size) < size ∨
        szAdd size (getPadSize size) < getPadSize size)) :
      Request (szAdd size (getPadSize size))
  | word (α : Type) [Scalar α] : Request (Scalar.width α)
  | pad (length size : Nat) : Request (getPadSize (szMul length size))

variable [Target]

/-- **When `EnsureWritableCapacity` keeps its promise**, in every state of a run and for every
request. The size of a padded block that passes the overflow test has not wrapped around. -/
theorem ensureWritableCapacity_keeps_iff (allocator : Nat) (heap : Nat → Option Mem) (ops : List Op)
    (h : Along (fun q op => Op.Within q op) Parcel.step (Parcel.new allocator heap) ops) :
    let p := (Parcel.new allocator heap).run ops
    (∀ n, KeepsPromise p n ↔ n + p.writeCursor < sizeLimit ∨ ¬ p.Grows n) ∧
      ∀ size, 0 < size →
        ¬ (szAdd size (getPadSize size) < size ∨
          szAdd size (getPadSize size) < getPadSize size) →
        szAdd size (getPadSize size) = size + getPadSize size := by
  intro p
  have hp : Sound p := sound_run (Sound.new allocator heap) h
  refine ⟨fun n => keepsPromise_iff hp n, fun size h0 hguard => ?_⟩
  have hlt := size_of_guard h0 hguard
  have hpad := padOf_lt size
  rw [getPadSize_eq hlt]
  exact szAdd_of_lt (by omega)

/-- A limit and a small block are set, and the second write makes the block larger. -/
def grownByWrites : List Op :=
  [.setMaxCapacity 4096, .setDataCapacity 8, .write (.scalar .int32 7), .write (.string [97, 98])]

omit [Target] in
theorem ensureWritableCapacity_keeps_grownByWrites :
    letI := Target.checked
    let p := (Parcel.new 0 ampleHeap).run grownByWrites
    ((ensureWritableCapacity 100).run p).1 = true ∧ KeepsPromise p 100 := by
  have hgranted : letI := Target.checked
      ((ensureWritableCapacity 100).run ((Parcel.new 0 ampleHeap).run grownByWrites)).1 = true := by
    decide +kernel
  have hroom : letI := Target.checked
      100 + ((Parcel.new 0 ampleHeap).run grownByWrites).writeCursor < sizeLimit := by
    decide +kernel
  let _ := Target.checked
  have hwithin : Along (fun q op => Op.Within q op) Parcel.step (Parcel.new 0 ampleHeap)
      grownByWrites := ⟨trivial, trivial, trivial, trivial, trivial⟩
  exact ⟨hgranted, ((ensureWritableCapacity_keeps_iff 0 ampleHeap grownByWrites hwithin).1 100).2
    (Or.inl hroom)⟩

omit [Target] in
/-- **A request that wraps around.** The block is full with four bytes; `WriteBuffer` asks for
`2 ^ 64 - 4` more, the sum is zero, and a block of 64 bytes is taken to be enough. -/
theorem wrapped_request_granted :
    letI := Target.checked
    let p := (Parcel.new 0 ampleHeap).run [.setDataCapacity 4, .write (.scalar .int32 7)]
    Request (2 ^ 64 - 4) ∧ ¬ KeepsPromise p (2 ^ 64 - 4) := by
  let _ := Target.checked
  intro p
  have hsize : szAdd (2 ^ 64 - 4) (getPadSize (2 ^ 64 - 4)) = 2 ^ 64 - 4 := by decide +kernel
  have hblock : Request (2 ^ 64 - 4) := by
    rw [← hsize]
    exact .block (by decide) (by decide +kernel)
  refine ⟨hblock, fun h => ?_⟩
  have hroom := (h.granted (by decide +kernel)).2
  revert hroom
  decide +kernel

end CUtils
