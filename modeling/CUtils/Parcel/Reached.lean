import CUtils.Parcel.Invariant
import CUtils.Parcel.Tracking

/-!
# The states a call can start in

A public function is called by a client, or by the body of a `Marshalling` while `WriteRemoteObject`
is still going on. `Reached` has the states of both, whatever the calls before were and whichever
allocations failed in them. `SetDataSize` may have put the end of the data anywhere in the block,
and from there `RewindWrite` takes the write cursor along, so nothing is known of the cursors. What
is known is that there is an allocator and that the block and its limit are in order (`Equipped`).
-/

namespace CUtils

open StateRun ByteMemory Parcel

variable [Target]

inductive Parcel.Reached : Parcel → Prop
  | new (allocator : Nat) (heap : Nat → Option Mem) : Reached (Parcel.new allocator heap)
  | step {p : Parcel} (op : Op) (h : Reached p) : Reached (p.step op)
  /-- `WriteRemoteObject` has made room for an offset, and calls `Marshalling`. -/
  | slots {p : Parcel} (h : Reached p) : Reached (ensureObjectsCapacity.run p).2

structure Equipped (p : Parcel) : Prop extends Stored p where
  installed : p.allocator.isSome = true

omit [Target] in
theorem Equipped.of_same {p p' : Parcel} (h : Equipped p) (hdata : p'.data.isSome = p.data.isSome)
    (hcap : p'.dataCapacity = p.dataCapacity) (hmax : p'.maxDataCapacity = p.maxDataCapacity)
    (hallocator : p'.allocator = p.allocator) : Equipped p' where
  cap_le := by rw [hcap]; exact h.cap_le
  null hnone := by
    rw [hnone, Option.isSome_none, eq_comm, Option.isSome_eq_false_iff] at hdata
    rw [hcap, h.null (Option.isNone_iff_eq_none.1 hdata)]
  max_ge := by rw [hmax]; exact h.max_ge
  max_lt := by rw [hmax]; exact h.max_lt
  installed := by rw [hallocator]; exact h.installed

/-! ## The calls that allocate -/

omit [Target] in
theorem Equipped.regrow {p : Parcel} (h : Equipped p) (n : Nat) :
    Equipped ((p.grant n).elim (false, p.reallocated n) fun fresh => (true, p.regrown n fresh)).2 := by
  cases hg : p.grant n with
  | none => exact h.of_same rfl rfl rfl rfl
  | some fresh =>
      exact
        { h with
          cap_le := grant_le hg
          null := fun hd => absurd hd (by simp [Parcel.regrown]) }

omit [Target] in
theorem ensureWritableCapacity_equipped (n : Nat) : Keeps Equipped (ensureWritableCapacity n) := by
  intro p h
  rw [run_ensureWritableCapacity]
  split
  · exact h
  · split
    · exact h
    · split
      · exact h
      · exact h.regrow _

omit [Target] in
theorem ensureObjectsCapacity_equipped : Keeps Equipped ensureObjectsCapacity := by
  intro p h
  rw [ensureObjectsCapacity_eq]
  exact h.of_same rfl rfl rfl rfl

theorem equipped_respects : Respects (Kept Equipped) :=
  Respects.of_storage
    (fun h hsame => h.of_same hsame.data hsame.dataCapacity hsame.maxDataCapacity hsame.allocator)
    ensureWritableCapacity_equipped ensureObjectsCapacity_equipped

/-! ## The calls that deal with the block -/

omit [Target] in
theorem setMaxCapacity_equipped (n : UInt64) : Keeps Equipped (setMaxCapacity n.toNat) := by
  intro p h
  have hn : n.toNat < sizeLimit := n.toNat_lt
  have hge := h.max_ge
  simp only [setMaxCapacity, run_bind, run_get]
  by_cases hgt : n.toNat > p.maxDataCapacity
  · rw [if_pos hgt]
    exact { h with max_ge := by show _ ≤ n.toNat; omega, max_lt := hn }
  · rw [if_neg hgt]
    exact h

omit [Target] in
theorem setDataCapacity_equipped (n : Nat) : Keeps Equipped (setDataCapacity n) := by
  intro p h
  rw [run_setDataCapacity]
  split
  · exact h
  · exact h.regrow n

omit [Target] in
theorem setDataSize_equipped (n : Nat) : Keeps Equipped (setDataSize n) := by
  intro p h
  have hsame := setDataSize_sameBlock p n
  exact h.of_same (by rw [hsame.data]) hsame.dataCapacity hsame.maxDataCapacity hsame.allocator

theorem setAllocator_equipped (a : Option Nat) : Keeps Equipped (setAllocator a) := by
  intro p h
  obtain ⟨p', hrun, hset⟩ := setAllocator_cases p a
  rw [hrun]
  cases hset with
  | refused => exact h
  | failed _ => exact h.of_same rfl rfl rfl rfl
  | moved hsome _ _ hgrant _ =>
      exact
        { h with cap_le := grant_le hgrant, null := fun hd => by simp at hd, installed := hsome }
  | installed hsome _ _ => exact { h with installed := hsome }

theorem rewindWrite_equipped (n : Nat) : Keeps Equipped (rewindWrite n) := by
  intro p h
  have hsame := rewindWrite_sameBlock p n
  exact h.of_same (by rw [hsame.data]) hsame.dataCapacity hsame.maxDataCapacity hsame.allocator

omit [Target] in
theorem flushBuffer_equipped : Keeps Equipped flushBuffer := by
  intro p h
  have hflush : Equipped (if p.data.isSome = true then p.flushed else p) := by
    split
    · exact { h with cap_le := Nat.zero_le _, null := fun _ => rfl }
    · exact h
  rw [run_flushBuffer]
  split
  · exact h
  · dsimp only
    split
    · exact hflush.of_same rfl rfl rfl rfl
    · exact hflush

theorem parseFrom_equipped {data : Option Mem} {size : Nat} (hsize : size ≤ ptrdiffMax)
    (hnull : data = none → size = 0) : Keeps Equipped (parseFrom data size) := by
  intro p h
  have hparsed : Equipped (p.parsed data size) := { h with cap_le := hsize, null := hnull }
  rw [run_parseFrom]
  split
  · exact h
  · split
    · exact hparsed.of_same rfl rfl rfl rfl
    · exact hparsed

/-! ## Every state -/

theorem equipped_step {p : Parcel} (h : Equipped p) (op : Op) : Equipped (p.step op) := by
  cases op with
  | setMaxCapacity n => exact setMaxCapacity_equipped n p h
  | setDataCapacity n => exact setDataCapacity_equipped n p h
  | setDataSize n => exact setDataSize_equipped n p h
  | setAllocator a => exact setAllocator_equipped a p h
  | rewindWrite n => exact rewindWrite_equipped n p h
  | flushBuffer => exact flushBuffer_equipped p h
  | parseFrom data size hsize hnull => exact parseFrom_equipped hsize hnull p h
  | _ => exact step_tracks equipped_respects id p h

omit [Target] in
theorem Equipped.new (allocator : Nat) (heap : Nat → Option Mem) :
    Equipped (Parcel.new allocator heap) where
  toStored := (Sound.new allocator heap).stored
  installed := rfl

theorem Parcel.Reached.equipped {p : Parcel} (h : p.Reached) : Equipped p := by
  induction h with
  | new allocator heap => exact Equipped.new allocator heap
  | step op _ ih => exact equipped_step ih op
  | slots _ ih => exact ensureObjectsCapacity_equipped _ ih

theorem Parcel.Reached.run {p : Parcel} (h : p.Reached) (ops : List Op) : (p.run ops).Reached := by
  induction ops generalizing p with
  | nil => exact h
  | cons op ops ih => exact ih (h.step op)

end CUtils
