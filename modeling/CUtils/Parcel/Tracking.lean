import CUtils.Parcel.Marshalling

/-!
# Relations that every call respects

Writers, readers and the bodies of `Marshalling` are put together from few primitive steps: asking
for room, storing, moving a cursor, checking for objects, recording an offset. A relation between
states that each of these respects is respected by all of them (`Respects`, `Marshals.tracks`), so
a result about something no call but a few deals with needs an argument for these only.
-/

namespace CUtils

open StateRun ByteMemory Parcel

variable [Target]

/-- The relation is respected by the primitive steps of writers and readers. -/
structure RespectsData (R : Parcel → Parcel → Prop) : Prop where
  ensure : ∀ n, Tracks R (ensureWritableCapacity n)
  store : ∀ pos n src, Tracks R (storeBytes pos n src)
  advance : ∀ n, Tracks R (advanceWrite n)
  check : ∀ u, Tracks R (validateReadData u)
  load : ∀ pos n, Tracks R (loadBytes pos n)
  seek : ∀ f : Parcel → Nat, Tracks R (modify fun p => { p with readCursor := f p })

/-- The relation is respected by every primitive step. -/
structure Respects (R : Parcel → Parcel → Prop) : Prop extends RespectsData R where
  rewind : ∀ n, Tracks R (rewindRead n)
  slots : Tracks R ensureObjectsCapacity
  offset : ∀ o, Tracks R (writeObjectOffset o)
  hold : ∀ o n, Tracks R (holdParcelable o n)
  rollback : ∀ c n, Tracks R (modify fun p => { p with writeCursor := c, dataSize := n })

/-- The block and what decides about it are as before. -/
structure SameStorage (p p' : Parcel) : Prop where
  data : p'.data.isSome = p.data.isSome
  dataCapacity : p'.dataCapacity = p.dataCapacity
  maxDataCapacity : p'.maxDataCapacity = p.maxDataCapacity
  allocator : p'.allocator = p.allocator
  writable : p'.writable = p.writable
  heap : p'.heap = p.heap
  blocks : p'.blocks = p.blocks

/-- An invariant of the storage is kept by all steps if it is kept by the two that allocate. -/
theorem Respects.of_storage {I : Parcel → Prop} (hI : ∀ {p p'}, I p → SameStorage p p' → I p')
    (hensure : ∀ n, Keeps I (ensureWritableCapacity n)) (hslots : Keeps I ensureObjectsCapacity) :
    Respects (Kept I) where
  ensure := hensure
  store pos n src p h := hI h ⟨by simp [storeBytes], rfl, rfl, rfl, rfl, rfl, rfl⟩
  advance n p h := hI h ⟨rfl, rfl, rfl, rfl, rfl, rfl, rfl⟩
  check u p h := by
    have heq : ((validateReadData u).run p).2 = { p with
        nextObjectIdx := ((validateReadData u).run p).2.nextObjectIdx } := by
      simp only [validateReadData, run_bind, run_get, run_ite]
      split
      · rfl
      · split
        · rfl
        · split
          · rfl
          · rfl
    rw [heq]
    exact hI h ⟨rfl, rfl, rfl, rfl, rfl, rfl, rfl⟩
  load pos n p h := hI h ⟨rfl, rfl, rfl, rfl, rfl, rfl, rfl⟩
  seek f p h := hI h ⟨rfl, rfl, rfl, rfl, rfl, rfl, rfl⟩
  rewind n p h := by
    simp only [rewindRead, run_bind, run_get]
    split
    · exact h
    · exact hI h ⟨rfl, rfl, rfl, rfl, rfl, rfl, rfl⟩
  slots := hslots
  offset o p h := by
    simp only [writeObjectOffset, run_bind, run_get]
    split
    · exact h
    · split
      · exact h
      · exact hI h ⟨rfl, rfl, rfl, rfl, rfl, rfl, rfl⟩
  hold o n p h := hI h ⟨rfl, rfl, rfl, rfl, rfl, rfl, rfl⟩
  rollback c n p h := hI h ⟨rfl, rfl, rfl, rfl, rfl, rfl, rfl⟩

variable {R : Parcel → Parcel → Prop}

/-- What `R` relates to a state is an invariant. -/
theorem Respects.kept [IsPreorder Parcel R] (h : Respects R) (p : Parcel) :
    Respects (Kept (R p)) := by
  have hkept : ∀ {α : Type} {m : ParcelM α}, Tracks R m → Tracks (Kept (R p)) m :=
    fun hm => Tracks.mono (fun _ _ hR hp => trans_of R hp hR) hm
  exact
    { ensure := fun n => hkept (h.ensure n)
      store := fun pos n src => hkept (h.store pos n src)
      advance := fun n => hkept (h.advance n)
      check := fun u => hkept (h.check u)
      load := fun pos n => hkept (h.load pos n)
      seek := fun f => hkept (h.seek f)
      rewind := fun n => hkept (h.rewind n)
      slots := hkept h.slots
      offset := fun o => hkept (h.offset o)
      hold := fun o n => hkept (h.hold o n)
      rollback := fun c n => hkept (h.rollback c n) }

/-! ## Programs put together -/

omit [Target] in
theorem map_tracks {α β : Type} {m : ParcelM α} (f : α → β) (hm : Tracks R m) :
    Tracks R (f <$> m) := fun p => hm p

variable [IsPreorder Parcel R]

omit [Target] in
theorem unless_tracks {α : Type} {m : ParcelM Bool} {b : α} {k : ParcelM α} (hm : Tracks R m)
    (hk : Tracks R k) : Tracks R (m >>= fun ok => if (!ok) = true then pure b else k) :=
  Tracks.bind hm fun _ => Tracks.ite (fun _ => Tracks.pure _) fun _ => hk

omit [Target] in
theorem readElems_tracks {α : Type} {readElem : α → ParcelM (Bool × α)}
    (helem : ∀ v, Tracks R (readElem v)) (vs : List α) : Tracks R (readElems readElem vs) := by
  induction vs with
  | nil => exact Tracks.pure _
  | cons v vs ih =>
      refine Tracks.bind (helem v) fun r => Tracks.ite (fun _ => Tracks.pure _) fun _ => ?_
      exact Tracks.bind ih fun _ => Tracks.pure _

omit [Target] in
theorem checkOffsets_tracks : Tracks R checkOffsets := by
  refine Tracks.get_bind fun p => ?_
  suffices hrest : Tracks R _ from hrest p
  exact Tracks.ite (fun _ => Tracks.pure _) fun _ => Tracks.pure _

section Data

variable (h : RespectsData R)

include h

/-! ## Writers -/

theorem writeDataBytes_tracks (data : Mem) (size : Nat) : Tracks R (writeDataBytes data size) := by
  refine Tracks.get_bind fun p => ?_
  suffices hrest : Tracks R _ from hrest p
  refine Tracks.ite (fun _ => Tracks.pure _) fun _ => Tracks.ite (fun _ => ?_) fun _ => ?_
  · exact Tracks.bind (h.store _ _ _) fun _ => Tracks.pure _
  · exact Tracks.bind (h.store _ _ _) fun _ => Tracks.bind (h.advance _) fun _ => Tracks.pure _

theorem writePadBytes_tracks (padSize : Nat) : Tracks R (writePadBytes padSize) := by
  refine Tracks.get_bind fun p => ?_
  suffices hrest : Tracks R _ from hrest p
  exact Tracks.bind (h.store _ _ _) fun _ => h.advance _

theorem writeBuffer_tracks (data : Option Mem) (size : Nat) : Tracks R (writeBuffer data size) := by
  cases data with
  | none => exact Tracks.pure _
  | some data =>
      refine Tracks.ite (fun _ => Tracks.pure _) fun _ => Tracks.ite (fun _ => Tracks.pure _) fun _ => ?_
      refine unless_tracks (h.ensure _) (unless_tracks (writeDataBytes_tracks h _ _) ?_)
      exact Tracks.bind (writePadBytes_tracks h _) fun _ => Tracks.pure _

theorem writeBufferAddTerminator_tracks (data : Option Mem) (size typeSize : Nat) :
    Tracks R (writeBufferAddTerminator data size typeSize) := by
  cases data with
  | none => exact Tracks.pure _
  | some data =>
      refine Tracks.ite (fun _ => Tracks.pure _) fun _ => Tracks.ite (fun _ => Tracks.pure _) fun _ => ?_
      refine unless_tracks (h.ensure _) (unless_tracks (writeDataBytes_tracks h _ _) ?_)
      refine Tracks.ite (fun _ => Tracks.pure _) fun _ => ?_
      refine unless_tracks (writeDataBytes_tracks h _ _) ?_
      exact Tracks.bind (writePadBytes_tracks h _) fun _ => Tracks.pure _

theorem write_tracks {α : Type} [Scalar α] (value : α) : Tracks R (write value) := by
  refine unless_tracks (h.ensure _) (Tracks.get_bind fun p => ?_)
  suffices hrest : Tracks R _ from hrest p
  exact Tracks.bind (h.store _ _ _) fun _ => Tracks.bind (h.advance _) fun _ => Tracks.pure _

theorem writeLengthAndChars_tracks (data : Mem) (dataLength : BitVec 32) (typeSize : Nat) :
    Tracks R (writeLengthAndChars data dataLength typeSize) :=
  unless_tracks (write_tracks h _) (writeBufferAddTerminator_tracks h _ _ _)

theorem writeVector_tracks {α : Type} (size : Nat) {writeElem : α → ParcelM Bool}
    (helem : ∀ v, Tracks R (writeElem v)) (val : List α) :
    Tracks R (writeVector size writeElem val) := by
  refine Tracks.ite (fun _ => Tracks.pure _) fun _ => ?_
  refine unless_tracks (write_tracks h _) (unless_tracks (Tracks.allM helem val) ?_)
  refine unless_tracks (h.ensure _) ?_
  exact Tracks.bind (writePadBytes_tracks h _) fun _ => Tracks.pure _

theorem writeString_tracks (value : List Char8) : Tracks R (writeString value) :=
  Tracks.ite (fun _ => Tracks.pure _) fun _ => writeLengthAndChars_tracks h _ _ _

theorem writeString16_tracks (value : List Char16) : Tracks R (writeString16 value) :=
  Tracks.ite (fun _ => Tracks.pure _) fun _ => writeLengthAndChars_tracks h _ _ _

theorem Writer.tracks (w : Writer) : Tracks R w.exec := by
  cases w with
  | scalar k v => cases k <;> exact write_tracks h _
  | buffer data size | unpadBuffer data size => exact writeBuffer_tracks h data size
  | bufferAddTerminator data size typeSize =>
      exact writeBufferAddTerminator_tracks h data size typeSize
  | cString value =>
      cases value with
      | none => exact Tracks.pure _
      | some value => exact Tracks.ite (fun _ => Tracks.pure _) fun _ => writeBuffer_tracks h _ _
  | string value => exact writeString_tracks h value
  | string16 value => exact writeString16_tracks h value
  | string8WithLength value =>
      cases value with
      | none => exact write_tracks h _
      | some value => exact writeString_tracks h value
  | string16WithLength value =>
      cases value with
      | none => exact write_tracks h _
      | some value => exact writeString16_tracks h value
  | vector k val =>
      cases k with
      | string => exact writeVector_tracks h _ (writeString_tracks h) val
      | string16 => exact writeVector_tracks h _ (writeString16_tracks h) val
      | _ => exact writeVector_tracks h _ (fun v => write_tracks h _) val

/-! ## Readers -/

omit [IsPreorder Parcel R] in
theorem advanceRead_tracks (n : Nat) : Tracks R (advanceRead n) :=
  h.seek fun p => szAdd p.readCursor n

theorem skipBytes_tracks (n : Nat) : Tracks R (skipBytes n) := by
  intro p
  simp only [skipBytes, run_bind, run_get]
  split
  · exact h.seek (fun p => szAdd p.readCursor n) p
  · split
    · exact h.seek (fun p => p.dataCapacity) p
    · exact refl_of R p

theorem read_tracks {α : Type} [Scalar α] (value : α) : Tracks R (read value) := by
  refine Tracks.get_bind fun p => ?_
  suffices hrest : Tracks R _ from hrest p
  refine Tracks.ite (fun _ => Tracks.bind (h.check _) fun ok => ?_) fun _ => Tracks.pure _
  refine Tracks.ite (fun _ => ?_) fun _ => ?_
  · exact Tracks.bind (advanceRead_tracks h _) fun _ => Tracks.pure _
  · exact Tracks.bind (h.load _ _) fun _ => Tracks.bind (advanceRead_tracks h _) fun _ => Tracks.pure _

theorem readValue_tracks {α : Type} [Scalar α] : Tracks R (readValue : ParcelM α) :=
  Tracks.bind (read_tracks h _) fun _ => Tracks.pure _

theorem readPadded_tracks {α : Type} (cast : BitVec 32 → α) (value : α) :
    Tracks R (readPadded cast value) :=
  Tracks.bind (read_tracks h _) fun _ => Tracks.pure _

theorem handOut_tracks (pos n : Nat) : Tracks R (handOut pos n) := by
  refine Tracks.get_bind fun p => ?_
  suffices hrest : Tracks R _ from hrest p
  exact Tracks.bind (h.load _ _) fun _ => Tracks.pure _

/-- Bytes handed out, and the cursor moved past them. -/
theorem handOver_tracks (pos n : Nat) :
    Tracks R (do let buffer ← handOut pos n; advanceRead n; return buffer) :=
  Tracks.bind (handOut_tracks h _ _) fun _ => Tracks.bind (advanceRead_tracks h _) fun _ => Tracks.pure _

theorem readBufferWith_tracks (length : Nat) (isValidate : Bool) :
    Tracks R (readBufferWith length isValidate) := by
  refine Tracks.get_bind fun p => ?_
  suffices hrest : Tracks R _ from hrest p
  refine Tracks.ite (fun _ => ?_) fun _ => Tracks.pure _
  cases isValidate with
  | false => exact handOver_tracks h _ _
  | true => exact unless_tracks (h.check _) (handOver_tracks h _ _)

theorem basicReadBuffer_tracks (length : Nat) : Tracks R (basicReadBuffer length) := by
  refine Tracks.ite (fun _ => Tracks.pure _) fun _ => Tracks.get_bind fun p => ?_
  suffices hrest : Tracks R _ from hrest p
  refine Tracks.ite (fun _ => Tracks.bind (h.check _) fun ok => ?_) fun _ => Tracks.pure _
  refine Tracks.ite (fun _ => ?_) fun _ => handOver_tracks h _ _
  exact Tracks.bind (advanceRead_tracks h _) fun _ => Tracks.pure _

theorem readUnpadBuffer_tracks (length : Nat) : Tracks R (readUnpadBuffer length) := by
  refine Tracks.get_bind fun p => ?_
  suffices hrest : Tracks R _ from hrest p
  refine Tracks.ite (fun _ => unless_tracks (h.check _) ?_) fun _ => Tracks.pure _
  refine Tracks.bind (handOut_tracks h _ _) fun _ => Tracks.bind (advanceRead_tracks h _) fun _ => ?_
  exact Tracks.bind (skipBytes_tracks h _) fun _ => Tracks.pure _

theorem readCString_tracks : Tracks R readCString := by
  refine Tracks.get_bind fun p => ?_
  suffices hrest : Tracks R _ from hrest p
  dsimp only
  cases (p.bytes.read p.readCursor p.getReadableBytes).findIdx? (· == 0) with
  | none => exact Tracks.pure _
  | some dataLength =>
      refine unless_tracks (h.check _) (Tracks.bind (handOut_tracks h _ _) fun _ => ?_)
      refine Tracks.bind (advanceRead_tracks h _) fun _ => ?_
      exact Tracks.bind (skipBytes_tracks h _) fun _ => Tracks.pure _

theorem readCharBody_tracks {α : Type} [Scalar α] [DecidableEq α] (dataLength : Nat) :
    Tracks R (readCharBody dataLength : ParcelM (Option (List α))) := by
  refine Tracks.get_bind fun p => ?_
  suffices hrest : Tracks R _ from hrest p
  refine Tracks.ite (fun _ => Tracks.pure _) fun _ => Tracks.bind ?_ fun str => ?_
  · exact Tracks.ite (fun _ => basicReadBuffer_tracks h _) fun _ => readBufferWith_tracks h _ _
  · cases str with
    | none => exact Tracks.pure _
    | some str => exact Tracks.bind (skipBytes_tracks h _) fun _ => Tracks.pure _

theorem readChars_tracks {α : Type} [Scalar α] [DecidableEq α] :
    Tracks R (readChars : ParcelM (Option (BitVec 32) × Option (List α))) := by
  refine Tracks.get_bind fun p => ?_
  suffices hrest : Tracks R _ from hrest p
  refine Tracks.bind (read_tracks h _) fun r => Tracks.ite (fun _ => Tracks.pure _) fun _ => ?_
  refine Tracks.ite (fun _ => Tracks.pure _) fun _ => Tracks.bind (readCharBody_tracks h _) fun units => ?_
  cases units with
  | none => exact Tracks.bind (h.seek fun _ => p.readCursor) fun _ => Tracks.pure _
  | some units => exact Tracks.pure _

theorem readVector_tracks {α : Type} (size maxSize : Nat) (zero : α)
    {readElem : α → ParcelM (Bool × α)} (helem : ∀ v, Tracks R (readElem v))
    (val : Option (List α)) : Tracks R (readVector size maxSize zero readElem val) := by
  cases val with
  | none => exact Tracks.pure _
  | some val =>
      refine Tracks.bind (readValue_tracks h) fun len => Tracks.ite (fun _ => Tracks.pure _) fun _ => ?_
      refine Tracks.get_bind fun p => ?_
      suffices hrest : Tracks R _ from hrest p
      refine Tracks.ite (fun _ => Tracks.pure _) fun _ => ?_
      refine Tracks.bind (readElems_tracks helem _) fun r => ?_
      refine Tracks.ite (fun _ => Tracks.pure _) fun _ => ?_
      exact Tracks.bind (skipBytes_tracks h _) fun _ => Tracks.pure _

theorem readStringsVector_tracks {α : Type} {readElem : ParcelM (List α)}
    (helem : Tracks R readElem) (val : Option (List (List α))) :
    Tracks R (readStringsVector readElem val) := by
  cases val with
  | none => exact Tracks.pure _
  | some val =>
      refine Tracks.bind (readValue_tracks h) fun len => Tracks.ite (fun _ => Tracks.pure _) fun _ => ?_
      refine Tracks.get_bind fun p => ?_
      suffices hrest : Tracks R _ from hrest p
      refine Tracks.ite (fun _ => Tracks.pure _) fun _ => ?_
      exact Tracks.bind (Tracks.mapM (fun _ => helem) _) fun _ => Tracks.pure _

theorem BasicReader.tracks {α : Type} {m : ParcelM α} (hm : BasicReader m) : Tracks R m := by
  cases hm with
  | @scalarValue k m hk =>
      cases k with
      | int8Unaligned | int16Unaligned | uint8Unaligned | uint16Unaligned =>
          exact absurd hk (by simp [ScalarKind.valueReader])
      | bool | int8 | int16 | uint8 | uint16 =>
          rw [← Option.some.inj hk]
          exact map_tracks _ (readValue_tracks h)
      | _ =>
          rw [← Option.some.inj hk]
          exact readValue_tracks h
  | @scalarRef k m hk value =>
      cases k with
      | boolUnaligned | pointer => exact absurd hk (by simp [ScalarKind.refReader])
      | bool | int8 | int16 | uint8 | uint16 =>
          rw [← Option.some.inj hk]
          exact readPadded_tracks h _ _
      | _ =>
          rw [← Option.some.inj hk]
          exact read_tracks h _
  | buffer length => exact readBufferWith_tracks h length true
  | unpadBuffer length => exact readUnpadBuffer_tracks h length
  | cString => exact readCString_tracks h
  | string | stringRef | string16 | string16Ref => exact map_tracks _ (readChars_tracks h)
  | string8WithLength len | string16WithLength len => exact map_tracks _ (readChars_tracks h)
  | vector k val =>
      cases k with
      | bool | int16 => exact readVector_tracks h _ _ _ (fun v => readPadded_tracks h _ v) val
      | string | string16 =>
          exact readStringsVector_tracks h (map_tracks _ (readChars_tracks h)) val
      | _ => exact readVector_tracks h _ _ _ (fun v => read_tracks h v) val

theorem Reader.tracks {α : Type} {m : ParcelM α} (hm : Reader m) : Tracks R m := by
  cases hm with
  | basic hm => exact hm.tracks h
  | bufferWith length isValidate => exact readBufferWith_tracks h length isValidate
  | checkOffsets => exact checkOffsets_tracks
  | object length => exact unless_tracks (checkOffsets_tracks) (readBufferWith_tracks h _ _)

end Data

/-! ## Objects -/

section Objects

variable (h : Respects R)

include h

theorem injectOffsets_tracks (offsets : Option (List Nat)) : Tracks R (injectOffsets offsets) := by
  rw [injectOffsets]
  induction offsets.getD [] with
  | nil => exact Tracks.pure _
  | cons o os ih =>
      refine Tracks.bind (Tracks.bind h.slots fun ok => ?_) fun _ => ih
      exact Tracks.ite (fun _ => Tracks.bind (h.offset _) fun _ => Tracks.pure _)
        fun _ => Tracks.pure _

theorem writeRemoteObject_tracks {o : Option Parcelable}
    (ho : ∀ x ∈ o, Tracks R x.marshalling) : Tracks R (writeRemoteObject o) := by
  refine Tracks.get_bind fun p => ?_
  suffices hrest : Tracks R _ from hrest p
  cases o with
  | none => exact Tracks.pure _
  | some x =>
      refine Tracks.ite (fun _ => Tracks.pure _) fun _ => ?_
      refine unless_tracks h.slots (unless_tracks (ho x rfl) ?_)
      refine Tracks.bind (h.offset _) fun _ => ?_
      exact Tracks.ite (fun _ => Tracks.bind (h.hold x _) fun _ => Tracks.pure _)
        fun _ => Tracks.pure _

theorem writeParcelable_tracks {o : Option Parcelable}
    (ho : ∀ x ∈ o, Tracks R x.marshalling) : Tracks R (writeParcelable o) := by
  refine Tracks.get_bind fun p => Tracks.get_bind (fun q => ?_) p
  suffices hrest : Tracks R _ from hrest q
  cases o with
  | none => exact write_tracks h.toRespectsData _
  | some x =>
      refine Tracks.ite (fun _ => unless_tracks (write_tracks h.toRespectsData _) (ho x rfl)) fun _ => ?_
      refine unless_tracks (write_tracks h.toRespectsData _) ?_
      refine Tracks.bind (writeRemoteObject_tracks h ho) fun ok => ?_
      refine Tracks.ite (fun _ => Tracks.pure _) fun _ => ?_
      exact Tracks.bind (h.rollback _ _) fun _ => Tracks.pure _

theorem writeStrongParcelable_tracks {o : Option Parcelable}
    (ho : ∀ x ∈ o, Tracks R x.marshalling) : Tracks R (writeStrongParcelable o) := by
  cases o with
  | none => exact Tracks.bind (write_tracks h.toRespectsData _) fun _ => Tracks.pure _
  | some x =>
      have hset : ∀ y ∈ some (x.setBehavior holdObject), Tracks R y.marshalling := by
        intro y hy
        rw [← Option.some.inj hy]
        exact ho x rfl
      exact writeParcelable_tracks h hset

/-- **The body of a `Marshalling` respects the relation**, to any nesting depth. -/
theorem Marshals.tracks {m : ParcelM Bool} (hm : Marshals m) : Tracks R m := by
  induction hm with
  | ret b => exact Tracks.pure b
  | write w _ ih => exact Tracks.bind (w.tracks h.toRespectsData) ih
  | read hm _ ih => exact Tracks.bind (hm.tracks h.toRespectsData) ih
  | skipBytes n _ ih => exact Tracks.bind (skipBytes_tracks h.toRespectsData n) fun _ => ih
  | rewindRead n _ ih => exact Tracks.bind (h.rewind n) ih
  | injectOffsets offsets _ ih => exact Tracks.bind (injectOffsets_tracks h offsets) fun _ => ih
  | writeRemoteObject o _ _ iho ih => exact Tracks.bind (writeRemoteObject_tracks h iho) ih
  | writeParcelable o _ _ iho ih => exact Tracks.bind (writeParcelable_tracks h iho) ih
  | writeStrongParcelable o _ _ iho ih => exact Tracks.bind (writeStrongParcelable_tracks h iho) ih

theorem Object.tracks (o : Object) : ∀ x ∈ o.ptr, Tracks R x.marshalling :=
  fun x hx => (o.marshals x hx).tracks h

/-- The call changes or gives up the block, or changes what limits it. -/
def Op.OnBlock : Op → Prop
  | setMaxCapacity _ | setDataCapacity _ | setDataSize _ | setAllocator _ | rewindWrite _
  | flushBuffer | parseFrom .. => True
  | _ => False

/-- **Every other call respects the relation.** -/
theorem step_tracks {op : Op} (hop : ¬ op.OnBlock) (p : Parcel) : R p (p.step op) := by
  cases op with
  | write w => exact w.tracks h.toRespectsData p
  | read m hm => exact hm.tracks h.toRespectsData p
  | writeRemoteObject o => exact writeRemoteObject_tracks h (o.tracks h) p
  | writeParcelable o => exact writeParcelable_tracks h (o.tracks h) p
  | writeStrongParcelable o => exact writeStrongParcelable_tracks h (o.tracks h) p
  | injectOffsets offsets => exact injectOffsets_tracks h offsets p
  | skipBytes n => exact skipBytes_tracks h.toRespectsData n p
  | rewindRead n => exact h.rewind n p
  | _ => exact absurd trivial hop

end Objects

/-! ## The log -/

/-- Entries are only added to the log. -/
def Logged (p p' : Parcel) : Prop := p.log <:+ p'.log

instance : IsPreorder Parcel Logged where
  refl _ := List.suffix_refl _
  trans _ _ _ h h' := List.IsSuffix.trans h h'

omit [Target] in
theorem Logged.of_same {p p' : Parcel} (h : p'.log = p.log) : Logged p p' := ⟨[], h.symm⟩

omit [Target] in
theorem ensureWritableCapacity_logged (n : Nat) : Tracks Logged (ensureWritableCapacity n) := by
  intro p
  refine .of_same ?_
  rw [ensureWritableCapacity_storage p n]

theorem logged_respects : Respects Logged where
  ensure := ensureWritableCapacity_logged
  store _ _ _ _ := List.suffix_cons _ _
  advance _ _ := .of_same rfl
  check u p := by
    simp only [validateReadData, run_bind, run_get, run_ite]
    split
    · exact .of_same rfl
    · split
      · exact .of_same rfl
      · split
        · exact .of_same rfl
        · exact .of_same rfl
  load _ _ _ := List.suffix_cons _ _
  seek _ _ := .of_same rfl
  rewind n p := by
    simp only [rewindRead, run_bind, run_get]
    split
    · exact .of_same rfl
    · exact .of_same rfl
  slots p := by
    rw [ensureObjectsCapacity_eq]
    exact .of_same rfl
  offset o p := by
    simp only [writeObjectOffset, run_bind, run_get]
    split
    · exact .of_same rfl
    · split
      · exact .of_same rfl
      · exact List.suffix_cons _ _
  hold _ _ _ := .of_same rfl
  rollback _ _ _ := .of_same rfl

end CUtils
