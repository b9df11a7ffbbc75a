import CUtils.Lib.Resource
import CUtils.Parcel.Invariant
import CUtils.Parcel.Tracking

/-!
# Who owns the block

Every block is to go back to the allocator it came from, once, and the parcel holds no block but
the one `data_` points at (`Owns`). The invariant behind it is that the block was given by the
allocator that is installed (`Custody`). Reallocating and deallocating keep it, whatever fails, and
so does moving the data to another allocator.

`SetAllocator` moves the block only when there is data in it. A block without data, left by
`SetDataCapacity` or `RewindWrite(0)`, stays behind with an allocator that is deleted;
`foreign_block_deallocated` is a run that passes it to the new one.
-/

namespace CUtils

open StateRun ByteMemory Parcel Resource

/-! ## Calls -/

/-- The allocator is passed a block of its own. -/
def AllocatorCall.Own : AllocatorCall → Prop
  | alloc _ _ => True
  | realloc allocator old _ | dealloc allocator old => ∀ b ∈ old, b.owner = allocator

/-- The blocks a call takes from the allocator and gives back to it, the last one first. A call of
`Realloc` that fails leaves the block as it is. -/
def AllocatorCall.deals : AllocatorCall → List (Deal Block)
  | alloc _ new => new.toList.map .take
  | realloc _ _ none => []
  | realloc _ old (some new) => .take new :: old.toList.map .give
  | dealloc _ old => old.toList.map .give

/-- The blocks taken and not given back, `none` if one was given back that was not held. -/
def Blocks.held (b : Blocks) : Option (List Block) :=
  Resource.held (b.calls.flatMap AllocatorCall.deals)

/-- Each block was passed to its own allocator only and given back at most once, and the block
`data_` points at is the only one not given back. -/
structure Owns (p : Parcel) : Prop where
  own : ∀ c ∈ p.blocks.calls, c.Own
  held : p.blocks.held = some p.blocks.current.toList

/-! ## Blocks of one allocator -/

/-- As `Owns`, and the current block is one of `allocator`. -/
structure Blocks.Of (b : Blocks) (allocator : Option Nat) : Prop where
  own : ∀ c ∈ b.calls, c.Own
  held : b.held = some b.current.toList
  owner : ∀ x ∈ b.current, x.owner = allocator

namespace Blocks.Of

variable {b : Blocks} {a a' : Option Nat}

theorem cons_own (h : b.Of a) {c : AllocatorCall} (hc : c.Own) : ∀ x ∈ c :: b.calls, x.Own := by
  intro x hx
  rcases List.mem_cons.1 hx with rfl | hx
  · exact hc
  · exact h.own x hx

theorem cons_alloc (h : b.Of a) (new : Option Block) :
    ∀ x ∈ AllocatorCall.alloc a' new :: b.calls, x.Own :=
  h.cons_own (c := .alloc a' new) trivial

/-- Giving back the current block. -/
theorem give (h : b.Of a) :
    Resource.held (b.current.toList.map Deal.give ++ b.calls.flatMap AllocatorCall.deals) =
      some [] := by
  have hheld := h.held
  cases hcur : b.current with
  | none =>
      rw [hcur] at hheld
      exact hheld
  | some x =>
      rw [hcur] at hheld
      exact held_give hheld

theorem realloc (h : b.Of a) (ok : Bool) : (b.realloc a ok).Of a := by
  cases ok with
  | false => exact ⟨h.cons_own h.owner, h.held, h.owner⟩
  | true =>
      refine ⟨h.cons_own h.owner, held_take h.give (b.next a), fun x hx => ?_⟩
      rw [← Option.some.inj hx]
      rfl

theorem dealloc (h : b.Of a) :
    Blocks.Of { current := none, calls := .dealloc a b.current :: b.calls } a' :=
  ⟨h.cons_own h.owner, h.give, fun _ hx => absurd hx (by simp)⟩

/-- The other allocator is asked for a block and has none. -/
theorem alloc_fail (h : b.Of a) : Blocks.Of { b with calls := .alloc a' none :: b.calls } a :=
  ⟨h.cons_alloc none, h.held, h.owner⟩

/-- The other allocator gives a block, and gets it back at once. -/
theorem alloc_dealloc (h : b.Of a) {x : Block} (hx : x.owner = a') :
    Blocks.Of { b with calls := .dealloc a' (some x) :: .alloc a' (some x) :: b.calls } a := by
  have hown : AllocatorCall.Own (.dealloc a' (some x)) := fun y hy => by
    rw [← Option.some.inj hy]
    exact hx
  refine ⟨fun c hc => ?_, held_give (held_take h.held x), h.owner⟩
  rcases List.mem_cons.1 hc with rfl | hc
  · exact hown
  · exact h.cons_alloc _ c hc

/-- The other allocator gives a block, and the current one goes back. -/
theorem move (h : b.Of a) :
    Blocks.Of
      { current := some (b.next a')
        calls := .dealloc a b.current :: .alloc a' (some (b.next a')) :: b.calls } a' := by
  have halloc := held_take h.held (b.next a')
  refine ⟨fun c hc => ?_, ?_, fun x hx => ?_⟩
  · rcases List.mem_cons.1 hc with rfl | hc
    · exact h.owner
    · exact h.cons_alloc _ c hc
  · cases hcur : b.current with
    | none =>
        rw [hcur] at halloc
        exact halloc
    | some x =>
        rw [hcur] at halloc
        exact held_give_second halloc
  · rw [← Option.some.inj hx]
    rfl

end Blocks.Of

/-! ## Custody -/

/-- The current block is there exactly if `data_` is not null, and the installed allocator gave
it. -/
structure Custody (p : Parcel) : Prop where
  blocks : p.blocks.Of p.allocator
  present : p.data.isSome = p.blocks.current.isSome
  installed : p.allocator.isSome = true

theorem Custody.owns {p : Parcel} (h : Custody p) : Owns p := ⟨h.blocks.own, h.blocks.held⟩

theorem Custody.of_same {p p' : Parcel} (h : Custody p) (hblocks : p'.blocks = p.blocks)
    (hallocator : p'.allocator = p.allocator) (hdata : p'.data.isSome = p.data.isSome) :
    Custody p' :=
  ⟨by rw [hblocks, hallocator]; exact h.blocks, by rw [hblocks, hdata]; exact h.present,
    by rw [hallocator]; exact h.installed⟩

/-- A reallocation, and the block it returns if there is one. -/
theorem Custody.reallocated {p p' : Parcel} (h : Custody p) {n : Nat}
    (hblocks : p'.blocks = (p.reallocated n).blocks) (hallocator : p'.allocator = p.allocator)
    (hdata : p'.data.isSome = (if (p.grant n).isSome then true else p.data.isSome)) :
    Custody p' := by
  refine ⟨?_, ?_, by rw [hallocator]; exact h.installed⟩
  · rw [hblocks, hallocator]
    exact h.blocks.realloc _
  · rw [hblocks, hdata]
    cases hg : (p.grant n).isSome with
    | false =>
        simp only [Parcel.reallocated, hg, Blocks.realloc]
        exact h.present
    | true =>
        simp only [Parcel.reallocated, hg, Blocks.realloc]
        rfl

/-- What both callers of `Realloc` do with its result. -/
theorem Custody.regrow {p : Parcel} (h : Custody p) (n : Nat) :
    Custody ((p.grant n).elim (false, p.reallocated n) fun fresh => (true, p.regrown n fresh)).2 := by
  cases hg : p.grant n with
  | none => exact h.reallocated (n := n) rfl rfl (by rw [hg]; rfl)
  | some fresh => exact h.reallocated (n := n) rfl rfl (by rw [hg]; rfl)

theorem ensureWritableCapacity_custody (n : Nat) : Keeps Custody (ensureWritableCapacity n) := by
  intro p h
  rw [run_ensureWritableCapacity]
  split
  · exact h
  · split
    · exact h
    · split
      · exact h
      · exact h.regrow _

theorem ensureObjectsCapacity_custody : Keeps Custody ensureObjectsCapacity := by
  intro p h
  rw [run_ensureObjectsCapacity]
  split
  · exact h
  · split
    · exact h
    · cases p.grant (szMul p.grownSlots binderSize) with
      | none => exact h.of_same rfl rfl rfl
      | some m => exact h.of_same rfl rfl rfl

variable [Target]

theorem custody_respects : Respects (Kept Custody) :=
  Respects.of_storage (fun h hsame => h.of_same hsame.blocks hsame.allocator hsame.data)
    ensureWritableCapacity_custody ensureObjectsCapacity_custody

/-! ## The other operations -/

omit [Target] in
theorem setMaxCapacity_custody (n : Nat) : Keeps Custody (setMaxCapacity n) := by
  intro p h
  simp only [setMaxCapacity, run_bind, run_get]
  split
  · exact h.of_same rfl rfl rfl
  · exact h

omit [Target] in
theorem setDataCapacity_custody (n : Nat) : Keeps Custody (setDataCapacity n) := by
  intro p h
  rw [run_setDataCapacity]
  split
  · exact h
  · exact h.regrow n

omit [Target] in
theorem setDataSize_custody (n : Nat) : Keeps Custody (setDataSize n) := by
  intro p h
  have hsame := setDataSize_sameBlock p n
  exact h.of_same hsame.blocks hsame.allocator (by rw [hsame.data])

theorem rewindWrite_custody (n : Nat) : Keeps Custody (rewindWrite n) := by
  intro p h
  have hsame := rewindWrite_sameBlock p n
  exact h.of_same hsame.blocks hsame.allocator (by rw [hsame.data])

omit [Target] in
/-- Without a block there is nothing to give back. -/
theorem flushBuffer_custody {p : Parcel} (h : Custody p) :
    Custody (flushBuffer.run p).2 ∧ (flushBuffer.run p).2.blocks.current = none := by
  have hsome : ¬ p.allocator.isNone = true := by
    rw [Option.isNone_iff_eq_none]
    intro hnone
    have hinst := h.installed
    rw [hnone] at hinst
    cases hinst
  rw [run_flushBuffer, if_neg hsome]
  dsimp only
  have hflush : Custody (if p.data.isSome = true then p.flushed else p) ∧
      (if p.data.isSome = true then p.flushed else p).blocks.current = none := by
    by_cases hd : p.data.isSome = true
    · rw [if_pos hd]
      exact ⟨⟨h.blocks.dealloc, rfl, h.installed⟩, rfl⟩
    · rw [if_neg hd]
      refine ⟨h, ?_⟩
      rw [h.present] at hd
      exact Option.not_isSome_iff_eq_none.1 hd
  split
  · exact ⟨hflush.1.of_same rfl rfl rfl, hflush.2⟩
  · exact hflush

/-- The call installs another allocator. -/
def Parcel.Installs (p : Parcel) (a : Option Nat) : Prop := ¬ (a.isNone = true ∨ p.allocator = a)

instance (p : Parcel) (a : Option Nat) : Decidable (p.Installs a) := inferInstanceAs (Decidable (¬ _))

/-- A block with data in it is moved, whichever call fails on the way. -/
theorem setAllocator_custody {p : Parcel} (h : Custody p) {a : Option Nat}
    (hmoved : p.Installs a → p.data.isSome = true → 0 < p.dataSize) :
    Custody ((setAllocator a).run p).2 := by
  obtain ⟨p', hrun, hset⟩ := setAllocator_cases p a
  rw [hrun]
  cases hset with
  | refused => exact h
  | failed hcalls =>
      rcases hcalls with rfl | rfl
      · exact ⟨h.blocks.alloc_fail, h.present, h.installed⟩
      · exact ⟨h.blocks.alloc_dealloc rfl, h.present, h.installed⟩
  | moved hsome _ _ _ _ => exact ⟨h.blocks.move, rfl, hsome⟩
  | installed hsome hne hempty =>
      -- there is no block at all, since a block without data is excluded
      have hinst : p.Installs a := by
        rintro (hnone | heq)
        · rw [Option.isNone_iff_eq_none.1 hnone] at hsome
          cases hsome
        · exact hne heq
      have hnull : ¬ p.data.isSome = true := fun hdata => hempty ⟨hdata, hmoved hinst hdata⟩
      rw [h.present, Option.not_isSome_iff_eq_none] at hnull
      refine ⟨⟨h.blocks.own, h.blocks.held, fun x (hx : x ∈ p.blocks.current) => ?_⟩, h.present,
        hsome⟩
      rw [hnull] at hx
      cases hx

/-! ## Whole runs -/

/-- The call does not install another allocator over a block without data, nor does it take over a
block of the driver. -/
def Op.MovesBlock (p : Parcel) : Op → Prop
  | setAllocator a => p.Installs a → p.data.isSome = true → 0 < p.dataSize
  | parseFrom .. => False
  | _ => True

theorem custody_step {p : Parcel} (h : Custody p) {op : Op} (hop : op.MovesBlock p) :
    Custody (p.step op) := by
  cases op with
  | setMaxCapacity n => exact setMaxCapacity_custody n.toNat p h
  | setDataCapacity n => exact setDataCapacity_custody n p h
  | setDataSize n => exact setDataSize_custody n p h
  | setAllocator a => exact setAllocator_custody h hop
  | rewindWrite n => exact rewindWrite_custody n p h
  | flushBuffer => exact (flushBuffer_custody h).1
  | parseFrom data size hsize hnull => exact absurd hop id
  | _ => exact step_tracks custody_respects id p h

omit [Target] in
theorem Custody.new (allocator : Nat) (heap : Nat → Option Mem) :
    Custody (Parcel.new allocator heap) where
  blocks :=
    ⟨fun _ hc => absurd hc (by simp [Parcel.new]), rfl,
      fun _ hx => absurd hx (by simp [Parcel.new])⟩
  present := rfl
  installed := rfl

theorem custody_run {allocator : Nat} {heap : Nat → Option Mem} {ops : List Op}
    (h : Along (fun p op => Op.MovesBlock p op) Parcel.step (Parcel.new allocator heap) ops) :
    Custody ((Parcel.new allocator heap).run ops) :=
  Along.invariant (I := Custody) (fun _ _ hop hp => custody_step hp hop) h
    (Custody.new allocator heap)

/-- **Blocks go back where they came from.** In every run that installs no allocator over a block
without data, each block is passed to its own allocator only and given back at most once, the block
in use is never lost, and after the destructor none is left. -/
theorem blocks_owned (allocator : Nat) (heap : Nat → Option Mem) (ops : List Op)
    (h : Along (fun p op => Op.MovesBlock p op) Parcel.step (Parcel.new allocator heap) ops) :
    let p := (Parcel.new allocator heap).run ops
    Owns p ∧ Owns (destroyParcel.run p).2 ∧ (destroyParcel.run p).2.blocks.held = some [] := by
  intro p
  have hp : Custody p := custody_run h
  obtain ⟨hflush, hnone⟩ := flushBuffer_custody hp
  refine ⟨hp.owns, ⟨hflush.owns.own, hflush.owns.held⟩, ?_⟩
  have hheld := hflush.owns.held
  rw [hnone] at hheld
  exact hheld

omit [Target] in
/-- Data that is moved twice, the second time after the block has grown. -/
theorem blocks_owned_two_moves :
    letI := Target.checked
    let ops : List Op := [.write (.scalar .int32 7), .setAllocator (some 1),
      .write (.scalar .int64 8), .setAllocator (some 2)]
    let p := (Parcel.new 0 ampleHeap).run ops
    Owns p ∧ Owns (destroyParcel.run p).2 ∧ (destroyParcel.run p).2.blocks.held = some [] := by
  let _ := Target.checked
  have h : Along (fun p op => Op.MovesBlock p op) Parcel.step (Parcel.new 0 ampleHeap)
      [.write (.scalar .int32 7), .setAllocator (some 1), .write (.scalar .int64 8),
        .setAllocator (some 2)] := by
    refine ⟨trivial, fun _ _ => ?_, trivial, fun _ _ => ?_, trivial⟩
    · decide +kernel
    · decide +kernel
  exact blocks_owned 0 ampleHeap _ h

omit [Target] in
/-- **A block of one allocator is passed to another.** The block of 64 bytes has no data in it, so
`SetAllocator` leaves it behind, and `FlushBuffer` hands it to the new allocator. -/
theorem foreign_block_deallocated :
    letI := Target.checked
    ¬ Owns ((Parcel.new 0 ampleHeap).run
      [.setDataCapacity 64, .setAllocator (some 1), .flushBuffer]) := by
  let _ := Target.checked
  intro h
  have hcalls : ((Parcel.new 0 ampleHeap).run
      [.setDataCapacity 64, .setAllocator (some 1), .flushBuffer]).blocks.calls =
      [.dealloc (some 1) (some ⟨some 0, 0⟩), .realloc (some 0) none (some ⟨some 0, 0⟩)] := by
    decide +kernel
  have hown := h.own (.dealloc (some 1) (some ⟨some 0, 0⟩)) (by rw [hcalls]; simp)
  exact absurd (hown ⟨some 0, 0⟩ rfl) (by decide)

end CUtils
