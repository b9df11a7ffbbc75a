import CUtils.Parcel.Scripts
import CUtils.Parcel.Reads

/-!
# What a `Marshalling` that writes and reads does to a parcel

User code inside `Marshalling` calls the parcel it is being written to. As long as it only writes,
reads, skips and records (`Marshals`), data is only added behind the data that is there, offsets are
only added behind the offsets that are there, and the invariant of the buffer is kept (`Extended`).
The proof is an induction over the body (`Marshals.extends`); the writers of objects are covered for
every object whose own `Marshalling` behaves so.
-/

namespace CUtils

open StateRun ByteMemory Parcel

variable [Target]

/-- What has changed is that data and offsets may have been added. -/
structure Extended (p p' : Parcel) : Prop where
  sound : Sound p'
  writable : p'.writable = p.writable
  moved : ∃ n, p'.writeCursor = p.writeCursor + n ∧ p'.dataSize = p.dataSize + n
  data : Mem.AgreeTo p.dataSize p'.bytes p.bytes
  offsets : ∃ new, p'.offsets = p.offsets ++ new
  cached : Ordered p' → Cached p → Cached p'

/-- `Extended`, for a program started from a sound parcel. -/
def Extends (p p' : Parcel) : Prop := Sound p → Extended p p'

theorem Extended.refl {p : Parcel} (hp : Sound p) : Extended p p :=
  ⟨hp, rfl, ⟨0, rfl, rfl⟩, Mem.AgreeTo.refl _ _, ⟨[], by simp⟩, fun _ h => h⟩

theorem Extended.ordered {p p' : Parcel} (h : Extended p p') (ho : Ordered p') : Ordered p := by
  obtain ⟨new, hnew⟩ := h.offsets
  have hsorted := ho.sorted
  rw [hnew] at hsorted
  exact ⟨ho.check, (List.pairwise_append.1 hsorted).1⟩

theorem Extended.trans {p p' p'' : Parcel} (h : Extended p p') (h' : Extended p' p'') :
    Extended p p'' := by
  obtain ⟨n, hcur, hsize⟩ := h.moved
  obtain ⟨k, hcur', hsize'⟩ := h'.moved
  obtain ⟨new, hnew⟩ := h.offsets
  obtain ⟨new', hnew'⟩ := h'.offsets
  refine ⟨h'.sound, h'.writable.trans h.writable, ⟨n + k, by omega, by omega⟩,
    (h'.data.mono (by omega)).trans h.data, ⟨new ++ new', ?_⟩, fun ho hc => ?_⟩
  · rw [hnew', hnew, List.append_assoc]
  · exact h'.cached ho (h.cached (h'.ordered ho) hc)

instance : IsPreorder Parcel Extends where
  refl _ hp := Extended.refl hp
  trans _ _ _ h h' hp := (h hp).trans (h' (h hp).sound)

/-! ## Calls that do not record an offset -/

theorem Wrote.extended {p p' : Parcel} {bs : List UInt8} (hp : Sound p) (h : Wrote p p' bs) :
    Extended p p' where
  sound := hp.wrote h
  writable := h.frame.writable
  moved := ⟨bs.length, h.cursor, h.size⟩
  data := h.data_agree hp
  offsets := ⟨[], by rw [h.frame.offsets, List.append_nil]⟩
  cached _ hc := by
    intro o ho
    rw [h.frame.offsets, h.frame.nextObjectIdx] at ho
    rw [h.frame.readCursor]
    exact hc o ho

theorem Looked.extended {b : Bool} {p p' : Parcel} (hp : Sound p) (h : Looked b p p') :
    Extended p p' where
  sound := hp.looked h
  writable := by rw [h.eq]
  moved := ⟨0, by rw [h.eq]; rfl, by rw [h.eq]; rfl⟩
  data := by
    have hdata : p'.bytes = p.bytes := by rw [Parcel.bytes, h.eq, Parcel.bytes]
    rw [hdata]
    exact Mem.AgreeTo.refl _ _
  offsets := ⟨[], by rw [h.offsets, List.append_nil]⟩
  cached ho := h.cached (h.ordered.1 ho)

theorem Writer.extends (w : Writer) : Tracks Extends w.exec := by
  intro p hp
  obtain ⟨bs, hwrote, -⟩ := w.wrote hp
  exact hwrote.extended hp

theorem Reader.extends {α : Type} {m : ParcelM α} (h : Reader m) : Tracks Extends m :=
  Tracks.mono (fun _ _ h hp => (h hp).extended hp) h.reads

theorem skipBytes_extends (n : Nat) : Tracks Extends (skipBytes n) :=
  Tracks.mono (fun _ _ h hp => (h hp).extended hp) (skipBytes_reads true n)

/-- Going back forgets the cached index. -/
theorem rewindRead_extends (n : Nat) : Tracks Extends (rewindRead n) := by
  intro p hp
  simp only [rewindRead, run_bind, run_get]
  by_cases h : n > p.dataSize
  · rw [if_pos h]
    exact Extended.refl hp
  · rw [if_neg h]
    simp only [run_bind, run_set, run_pure]
    have hsize := hp.size_le
    have hcap := hp.cap_le
    exact
      { sound := { hp with read_le := by show n ≤ _; omega, next_le := Nat.zero_le _ }
        writable := rfl
        moved := ⟨0, rfl, rfl⟩
        data := Mem.AgreeTo.refl _ _
        offsets := ⟨[], (List.append_nil _).symm⟩
        cached := fun _ _ o ho => absurd ho (by simp) }

/-! ## Recording offsets -/

/-- Changes to the bookkeeping of objects that leave the buffer and the offsets alone. -/
theorem extended_of_same {p p' : Parcel} (hp : Sound p)
    (h : p' = { p with
      objectOffsets := p'.objectOffsets, objectsCapacity := p'.objectsCapacity,
      objectHolder := p'.objectHolder, held := p'.held, heap := p'.heap })
    (ho : p'.offsets = p.offsets) : Extended p p' := by
  have hnext : p'.nextObjectIdx = p.nextObjectIdx := by rw [h]
  have hread : p'.readCursor = p.readCursor := by rw [h]
  refine ⟨?_, by rw [h], ⟨0, by rw [h]; rfl, by rw [h]; rfl⟩, ?_, ⟨[], by rw [ho, List.append_nil]⟩,
    fun _ hc o hmem => ?_⟩
  · exact
      { size_le := by rw [h]; exact hp.size_le
        cap_le := by rw [h]; exact hp.cap_le
        cursor_le := by rw [h]; exact hp.cursor_le
        read_le := by rw [h]; exact hp.read_le
        max_ge := by rw [h]; exact hp.max_ge
        max_lt := by rw [h]; exact hp.max_lt
        null := by rw [h]; exact hp.null
        behind := by rw [h]; exact hp.behind
        offsets_le := by rw [ho]; exact hp.offsets_le
        next_le := by rw [Parcel.objectCursor, ho, hnext]; exact hp.next_le
        log_ok := by rw [h]; exact hp.log_ok }
  · have hdata : p'.bytes = p.bytes := by rw [Parcel.bytes, h, Parcel.bytes]
    rw [hdata]
    exact Mem.AgreeTo.refl _ _
  · rw [ho, hnext] at hmem
    rw [hread]
    exact hc o hmem

/-- The number of slots `EnsureObjectsCapacity` grows the table to. -/
def Parcel.grownSlots (p : Parcel) : Nat := szMul (szAdd p.objectsCapacity 2) 3 / 2

omit [Target] in
theorem run_ensureObjectsCapacity (p : Parcel) :
    ensureObjectsCapacity.run p =
      if szSub p.objectsCapacity p.objectCursor ≥ 1 then (true, p)
      else if p.allocator.isNone then (false, p)
      else
        (p.grant (szMul p.grownSlots binderSize)).elim (false, p.allocated) fun _ =>
          (true, { p.allocated with
            objectOffsets := some p.offsets, objectsCapacity := p.grownSlots }) := by
  have hslots : szMul (szAdd p.objectsCapacity 2) 3 / 2 = p.grownSlots := rfl
  simp only [ensureObjectsCapacity, hslots, run_bind, run_get]
  by_cases h : szSub p.objectsCapacity p.objectCursor ≥ 1
  · rw [if_pos h, if_pos h, run_pure]
  · rw [if_neg h, if_neg h]
    by_cases ha : p.allocator.isNone = true
    · rw [if_pos ha, if_pos ha, run_pure]
    · rw [if_neg ha, if_neg ha, run_bind, run_alloc]
      cases p.grant (szMul p.grownSlots binderSize) with
      | none => rfl
      | some m => rfl

omit [Target] in
/-- Growing the table keeps what is in it. -/
theorem offsets_ensureObjectsCapacity (p : Parcel) :
    (ensureObjectsCapacity.run p).2.offsets = p.offsets := by
  rw [run_ensureObjectsCapacity]
  split
  · rfl
  · split
    · rfl
    · cases p.grant (szMul p.grownSlots binderSize) with
      | none => rfl
      | some m => rfl

omit [Target] in
theorem ensureObjectsCapacity_eq (p : Parcel) :
    (ensureObjectsCapacity.run p).2 = { p with
      objectOffsets := (ensureObjectsCapacity.run p).2.objectOffsets
      objectsCapacity := (ensureObjectsCapacity.run p).2.objectsCapacity
      heap := (ensureObjectsCapacity.run p).2.heap } := by
  rw [run_ensureObjectsCapacity]
  split
  · rfl
  · split
    · rfl
    · cases p.grant (szMul p.grownSlots binderSize) with
      | none => rfl
      | some m => rfl

theorem ensureObjectsCapacity_extends : Tracks Extends ensureObjectsCapacity := by
  intro p hp
  rw [run_ensureObjectsCapacity]
  by_cases h : szSub p.objectsCapacity p.objectCursor ≥ 1
  · rw [if_pos h]
    exact Extended.refl hp
  · rw [if_neg h]
    by_cases ha : p.allocator.isNone = true
    · rw [if_pos ha]
      exact Extended.refl hp
    · rw [if_neg ha]
      cases p.grant (szMul p.grownSlots binderSize) with
      | none => exact extended_of_same hp rfl rfl
      | some m => exact extended_of_same hp rfl rfl

omit [Target] in
theorem run_writeObjectOffset (p : Parcel) (offset : Nat) :
    (writeObjectOffset offset).run p =
      if offset > p.dataSize ∨ offset ∈ p.offsets then (false, p)
      else (true,
        { p with
          objectOffsets := some (p.offsets ++ [offset])
          log := ⟨.slot, p.objectCursor, 1, p.objectsCapacity⟩ :: p.log }) := by
  simp only [writeObjectOffset, run_bind, run_get]
  by_cases h : offset > p.dataSize
  · rw [if_pos h, if_pos (Or.inl h), run_pure]
  · rw [if_neg h]
    by_cases hmem : offset ∈ p.offsets
    · rw [if_pos (by simpa using hmem), if_pos (Or.inr hmem), run_pure]
    · rw [if_neg (by simpa using hmem), if_neg (by simp [hmem]; omega)]
      rfl

theorem writeObjectOffset_extends (offset : Nat) : Tracks Extends (writeObjectOffset offset) := by
  intro p hp
  rw [run_writeObjectOffset]
  by_cases h : offset > p.dataSize ∨ offset ∈ p.offsets
  · rw [if_pos h]
    exact Extended.refl hp
  · rw [if_neg h]
    have hsize := hp.size_le
    have hcap := hp.cap_le
    have hnext := hp.next_le
    refine
      { sound := { hp with offsets_le := ?_, next_le := ?_, log_ok := ?_ }
        writable := rfl
        moved := ⟨0, rfl, rfl⟩
        data := Mem.AgreeTo.refl _ _
        offsets := ⟨[offset], rfl⟩
        cached := fun _ hc o ho => ?_ }
    · intro o ho
      rcases List.mem_append.1 (show o ∈ p.offsets ++ [offset] from ho) with ho | ho
      · exact hp.offsets_le o ho
      · rw [List.mem_singleton.1 ho]
        omega
    · show p.nextObjectIdx ≤ (p.offsets ++ [offset]).length
      rw [Parcel.objectCursor] at hnext
      rw [List.length_append]
      omega
    · intro a ha hne
      rcases List.mem_cons.1 ha with rfl | ha
      · exact absurd rfl hne
      · exact hp.log_ok a ha hne
    · -- the new offset lies above the cached index
      change o ∈ (p.offsets ++ [offset]).take p.nextObjectIdx at ho
      rw [List.take_append_of_le_length hnext] at ho
      exact hc o ho

theorem injectOffset_extends (offset : Nat) : Tracks Extends (injectOffset offset) := by
  refine Tracks.bind ensureObjectsCapacity_extends fun ok => ?_
  cases ok with
  | false => exact Tracks.pure _
  | true => exact Tracks.bind (writeObjectOffset_extends offset) fun _ => Tracks.pure _

theorem injectOffsets_extends (offsets : Option (List Nat)) :
    Tracks Extends (injectOffsets offsets) := by
  rw [injectOffsets]
  induction offsets.getD [] with
  | nil => exact Tracks.pure _
  | cons o os ih => exact Tracks.bind (injectOffset_extends o) fun _ => ih

theorem holdParcelable_extends (o : Parcelable) (offset : Nat) :
    Tracks Extends (holdParcelable o offset) :=
  fun _ hp => extended_of_same hp rfl rfl

/-! ## Writing objects -/

theorem writeRemoteObject_extends {o : Option Parcelable}
    (ho : ∀ x ∈ o, Tracks Extends x.marshalling) : Tracks Extends (writeRemoteObject o) := by
  refine Tracks.get_bind fun p hp => ?_
  cases o with
  | none => exact Extended.refl hp
  | some x =>
      suffices h : Tracks Extends _ from h p hp
      refine Tracks.ite (fun _ => Tracks.pure _) fun _ => ?_
      refine Tracks.bind ensureObjectsCapacity_extends fun ok => ?_
      refine Tracks.ite (fun _ => Tracks.pure _) fun _ => ?_
      refine Tracks.bind (ho x rfl) fun ok => ?_
      refine Tracks.ite (fun _ => Tracks.pure _) fun _ => ?_
      refine Tracks.bind (writeObjectOffset_extends _) fun _ => ?_
      exact Tracks.ite (fun _ => Tracks.bind (holdParcelable_extends x _) fun _ => Tracks.pure _)
        fun _ => Tracks.pure _

/-- Going back to where an extension started. -/
theorem Extended.rollback {p p' : Parcel} (hp : Sound p) (h : Extended p p') :
    Extended p { p' with writeCursor := p.writeCursor, dataSize := p.dataSize } := by
  obtain ⟨n, hcur, hsize⟩ := h.moved
  have hs := h.sound
  refine
    { h with
      sound :=
        { hs with
          size_le := ?_
          cursor_le := hp.cursor_le
          behind := fun hw => hp.behind (h.writable ▸ hw)
          log_ok := hs.log_ok }
      moved := ⟨0, rfl, rfl⟩
      cached := fun ho hc o hmem => h.cached ⟨ho.check, ho.sorted⟩ hc o hmem }
  show p.dataSize ≤ p'.dataCapacity
  have := hs.size_le
  omega

omit [Target] in
theorem run_writeRemoteObject {x : Parcelable} (hr : x.asRemote = true) (p : Parcel) :
    (writeRemoteObject (some x)).run p =
      let ensured := ensureObjectsCapacity.run p
      let body := x.marshalling.run ensured.2
      let recorded := ((writeObjectOffset p.writeCursor).run body.2).2
      if ensured.1 = true then
        if body.1 = true then
          (true, if x.testBehavior holdObject = true then
            ((holdParcelable x p.writeCursor).run recorded).2 else recorded)
        else (false, body.2)
      else (false, ensured.2) := by
  simp only [writeRemoteObject, hr, Bool.not_true, Bool.false_eq_true, if_false, unless_eq_andThen,
    run_bind, run_get, run_andThen]
  cases (ensureObjectsCapacity.run p).1 with
  | false => rfl
  | true =>
      cases (x.marshalling.run (ensureObjectsCapacity.run p).2).1 with
      | false => rfl
      | true =>
          cases x.testBehavior holdObject with
          | false => rfl
          | true => rfl

omit [Target] in
/-- `WriteParcelable` of an object that is not remote. -/
theorem run_writeParcelable_plain {o : Parcelable} (hr : o.asRemote = false) (p : Parcel) :
    (writeParcelable (some o)).run p = ((writeInt32 1).andThen o.marshalling).run p := by
  simp only [writeParcelable, hr, Bool.not_false, if_true, unless_eq_andThen, run_bind, run_get]

omit [Target] in
/-- `WriteParcelable` of a remote object. -/
theorem run_writeParcelable_remote {o : Parcelable} (hr : o.asRemote = true) (p : Parcel) :
    (writeParcelable (some o)).run p =
      let first := (writeInt32 1).run p
      let second := (writeRemoteObject (some o)).run first.2
      if first.1 = true then
        if second.1 = true then (true, second.2)
        else (false, { second.2 with writeCursor := p.writeCursor, dataSize := p.dataSize })
      else (false, first.2) := by
  simp only [writeParcelable, hr, Bool.not_true, Bool.false_eq_true, if_false, run_bind, run_get,
    run_ite, run_pure, run_modify]
  cases ((writeInt32 1).run p).1 <;> rfl

theorem writeInt32_extends (v : BitVec 32) : Tracks Extends (writeInt32 v) :=
  Writer.extends (.scalar .int32 v)

theorem writeParcelable_extends {o : Option Parcelable}
    (ho : ∀ x ∈ o, Tracks Extends x.marshalling) : Tracks Extends (writeParcelable o) := by
  intro p hp
  cases o with
  | none => exact writeInt32_extends 0 p hp
  | some x =>
      have hfirst := writeInt32_extends 1 p hp
      cases hr : x.asRemote with
      | false =>
          rw [run_writeParcelable_plain hr]
          exact Tracks.bind (writeInt32_extends 1)
            (fun ok => Tracks.ite (fun _ => ho x rfl) fun _ => Tracks.pure _) p hp
      | true =>
          rw [run_writeParcelable_remote hr]
          dsimp only
          have hsecond := hfirst.trans (writeRemoteObject_extends ho _ hfirst.sound)
          by_cases hok : ((writeInt32 1).run p).1 = true
          · rw [if_pos hok]
            by_cases hok' : ((writeRemoteObject (some x)).run ((writeInt32 1).run p).2).1 = true
            · rw [if_pos hok']
              exact hsecond
            · rw [if_neg hok']
              exact hsecond.rollback hp
          · rw [if_neg hok]
            exact hfirst

theorem writeStrongParcelable_extends {o : Option Parcelable}
    (ho : ∀ x ∈ o, Tracks Extends x.marshalling) : Tracks Extends (writeStrongParcelable o) := by
  cases o with
  | none => exact Tracks.bind (writeInt32_extends 0) fun _ => Tracks.pure _
  | some x =>
      have hset : ∀ y ∈ some (x.setBehavior holdObject), Tracks Extends y.marshalling := by
        intro y hy
        rw [← Option.some.inj hy]
        exact ho x rfl
      exact writeParcelable_extends hset

/-! ## Bodies of `Marshalling` -/

/-- **Such a body only extends the parcel**, to any nesting depth. -/
theorem Marshals.extends {m : ParcelM Bool} (h : Marshals m) : Tracks Extends m := by
  induction h with
  | ret b => exact Tracks.pure b
  | write w _ ih => exact Tracks.bind w.extends ih
  | read hm _ ih => exact Tracks.bind hm.extends ih
  | skipBytes n _ ih => exact Tracks.bind (skipBytes_extends n) fun _ => ih
  | rewindRead n _ ih => exact Tracks.bind (rewindRead_extends n) ih
  | injectOffsets offsets _ ih => exact Tracks.bind (injectOffsets_extends offsets) fun _ => ih
  | writeRemoteObject o _ _ iho ih => exact Tracks.bind (writeRemoteObject_extends iho) ih
  | writeParcelable o _ _ iho ih => exact Tracks.bind (writeParcelable_extends iho) ih
  | writeStrongParcelable o _ _ iho ih => exact Tracks.bind (writeStrongParcelable_extends iho) ih

theorem Object.extends (o : Object) : ∀ x ∈ o.ptr, Tracks Extends x.marshalling :=
  fun x hx => (o.marshals x hx).extends

end CUtils
