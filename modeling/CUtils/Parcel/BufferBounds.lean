import CUtils.Parcel.UserCode

/-!
# The buffer bound, whatever user code does

`WriteParcelable` remembers the write cursor and the size of the data before it writes a remote
object, and puts both back if the object fails. If the `Marshalling` of that object has given the
block up or made it smaller in the meantime, the size that comes back lies behind the end of the
block. `rolledBack_sound_iff` says that this is the only way in which putting them back can go wrong,
and `rollback_overruns` is a run in which it does.

**Theorem (`buffer_bounds`).** In a program without `SetDataSize` in which no failing remote object
has shrunk the block below the data that `WriteParcelable` has found, every state at every depth of
nesting stays inside the buffer.

**Theorem (`setDataSize_bounds`).** With `SetDataSize` the data stays inside the block, if moreover
no call of it on a writable parcel goes past the write cursor. `setDataSize_overruns` is a run in
which one does, and `setDataSize_safe_iff` says that no such call is safe.
-/

namespace CUtils

open StateRun ByteMemory Parcel

variable [Target]

/-! ## Conditions on calls -/

/-- The size that a call of `SetDataSize` asks for. -/
def MemberCall.setsSize {α : Type} : MemberCall α → Option Nat
  | setDataSize n => some n
  | _ => none

/-- The size of the block that the call puts in place of the one there is, if it does. The writers
are left out: they only replace a block by a larger one. -/
def MemberCall.resizes {α : Type} (p : Parcel) : MemberCall α → Option Nat
  | setDataCapacity n => if p.dataSize < n ∧ (p.grant n).isSome = true then some n else none
  | setAllocator a =>
      if a.isSome = true ∧ p.allocator ≠ a ∧ p.data.isSome = true ∧ 0 < p.dataSize ∧
          (p.grant p.dataSize).isSome = true ∧ p.dataSize ≤ Target.memMaxLen then some p.dataSize
      else none
  | flushBuffer => if p.data.isSome = true then some 0 else none
  | parseFrom _ size _ _ => if p.data.isSome = true then none else some size
  | _ => none

namespace UserCode.Step

/-- The step is a call of `SetDataSize`. -/
def SetsSize : UserCode.Step → Prop
  | .call _ c => c.setsSize.isSome = true
  | .write .. => False

/-- A call of `SetDataSize` on a parcel that can be written does not go past the write cursor. -/
def Within : UserCode.Step → Prop
  | .call p c => p.writable = true → ∀ n ∈ c.setsSize, n ≤ p.writeCursor
  | .write .. => True

/-- The step leaves no block of fewer than `n` bytes in place of the one there is. -/
def Leaves (n : Nat) : UserCode.Step → Prop
  | .call p c => ∀ k ∈ c.resizes p, n ≤ k
  | .write .. => True

/-- If `WriteParcelable` runs the `Marshalling` of a remote object that returns `false`, then nothing
in it, at any depth, has left a block smaller than the data that `WriteParcelable` has found. -/
def Restorable : UserCode.Step → Prop
  | .call .. => True
  | .write p how o marshalling =>
      how ≠ .remoteObject → o.asRemote = true → ∀ q ∈ how.entry o.asRemote p,
        (marshalling.exec.run q).1 = false → ∀ s ∈ marshalling.steps q, s.Leaves p.dataSize

instance : DecidablePred SetsSize
  | .call _ c => inferInstanceAs (Decidable (c.setsSize.isSome = true))
  | .write .. => inferInstanceAs (Decidable False)

instance : DecidablePred Within
  | .call p c => inferInstanceAs
      (Decidable (p.writable = true → ∀ n ∈ c.setsSize, n ≤ p.writeCursor))
  | .write .. => inferInstanceAs (Decidable True)

instance (n : Nat) : DecidablePred (Leaves n)
  | .call p c => inferInstanceAs (Decidable (∀ k ∈ c.resizes p, n ≤ k))
  | .write .. => inferInstanceAs (Decidable True)

instance : DecidablePred Restorable
  | .call .. => inferInstanceAs (Decidable True)
  | .write p how o marshalling => inferInstanceAs
      (Decidable (how ≠ .remoteObject → o.asRemote = true → ∀ q ∈ how.entry o.asRemote p,
        (marshalling.exec.run q).1 = false → ∀ s ∈ marshalling.steps q, s.Leaves p.dataSize))

end UserCode.Step

/-! ## Single calls -/

theorem MemberCall.steady {p : Parcel} (hp : Sound p) {α : Type} (c : MemberCall α)
    (h : c.setsSize = none) : Steady p (c.exec.run p).2 := by
  cases c with
  | write w => exact (w.extends p hp).steady
  | read m hm => exact (hm.extends p hp).steady
  | tell f => exact Steady.refl hp
  | writeNull how =>
      have hnone : ∀ x ∈ (none : Option Parcelable), Tracks Extends x.marshalling := by simp
      cases how with
      | remoteObject => exact (writeRemoteObject_extends hnone p hp).steady
      | parcelable => exact (writeParcelable_extends hnone p hp).steady
      | strongParcelable => exact (writeStrongParcelable_extends hnone p hp).steady
  | injectOffsets offsets => exact (injectOffsets_extends offsets p hp).steady
  | setMaxCapacity n => exact setMaxCapacity_steady hp n
  | setDataCapacity n => exact setDataCapacity_steady hp n
  | setDataSize n => cases h
  | setAllocator a => exact setAllocator_steady hp a
  | skipBytes n => exact (skipBytes_extends n p hp).steady
  | rewindRead n => exact (rewindRead_extends n p hp).steady
  | rewindWrite n => exact rewindWrite_steady hp n
  | flushBuffer => exact flushBuffer_steady hp
  | parseFrom data size hsize hnull => exact parseFrom_steady hp hsize hnull

theorem MemberCall.sound {p : Parcel} (hp : Sound p) {α : Type} (c : MemberCall α)
    (h : p.writable = true → ∀ n ∈ c.setsSize, n ≤ p.writeCursor) : Sound (c.exec.run p).2 := by
  cases c with
  | setDataSize n => exact setDataSize_sound hp fun hw => h hw n rfl
  | _ => exact (MemberCall.steady hp _ rfl).sound

/-! ## The size of the block -/

omit [Target] in
theorem ensureWritableCapacity_grows (n k : Nat) :
    Keeps (fun p => k ≤ p.dataCapacity) (ensureWritableCapacity n) := by
  intro p hk
  rw [run_ensureWritableCapacity]
  split
  · exact hk
  · split
    · exact hk
    · split
      · exact hk
      · rename_i hdeclines
        obtain ⟨hgt, -, -⟩ := by simpa only [Parcel.Declines, not_or] using hdeclines
        cases p.grant (p.newCapacity n) with
        | none => exact hk
        | some fresh => exact hk.trans (Nat.le_of_not_le hgt)

/-- Writers and readers leave no smaller block. -/
theorem grown_respects (k : Nat) : Respects (Kept fun p => k ≤ p.dataCapacity) :=
  Respects.of_storage (fun h hsame => h.trans hsame.dataCapacity.ge)
    (fun n => ensureWritableCapacity_grows n k)
    (fun p h => by rw [ensureObjectsCapacity_eq]; exact h)

theorem MemberCall.leaves {p : Parcel} {α : Type} {c : MemberCall α} (hc : c.OnBlock) {k : Nat}
    (h : ∀ n ∈ c.resizes p, k ≤ n) (hk : k ≤ p.dataCapacity) : k ≤ (c.exec.run p).2.dataCapacity := by
  cases c with
  | setMaxCapacity n =>
      rw [MemberCall.exec, CUtils.setMaxCapacity, run_bind, run_get]
      dsimp only
      split <;> exact hk
  | setDataCapacity n =>
      rw [MemberCall.exec, run_setDataCapacity]
      by_cases hn : p.allocator.isNone = true ∨ p.dataSize ≥ n
      · rw [if_pos hn]
        exact hk
      · rw [if_neg hn]
        cases hg : p.grant n with
        | none => exact hk
        | some fresh =>
            have hlt : p.dataSize < n := Nat.lt_of_not_ge fun hge => hn (Or.inr hge)
            refine h n ?_
            rw [MemberCall.resizes, if_pos ⟨hlt, by rw [hg]; rfl⟩]
            rfl
  | setDataSize n => exact hk.trans (setDataSize_sameBlock p n).dataCapacity.ge
  | setAllocator a =>
      obtain ⟨p', hrun, hset⟩ := setAllocator_cases p a
      rw [MemberCall.exec, hrun]
      cases hset with
      | refused => exact hk
      | failed _ => exact hk
      | moved hsome hne hdata hgrant hcopied =>
          refine h p.dataSize ?_
          rw [MemberCall.resizes,
            if_pos ⟨hsome, hne, hdata.1, hdata.2, by rw [hgrant]; rfl, hcopied⟩]
          rfl
      | installed _ _ _ => exact hk
  | rewindWrite n => exact hk.trans (rewindWrite_sameBlock p n).dataCapacity.ge
  | flushBuffer =>
      have hflushed : p.data.isSome = true → k = 0 := by
        intro hd
        refine Nat.le_zero.1 (h 0 ?_)
        rw [MemberCall.resizes, if_pos hd]
        rfl
      rw [MemberCall.exec, run_flushBuffer]
      cases hd : p.data.isSome with
      | true =>
          rw [hflushed hd]
          exact Nat.zero_le _
      | false => cases p.allocator.isNone <;> cases p.objectOffsets.isSome <;> exact hk
  | parseFrom data size hsize hnull =>
      rw [MemberCall.exec, run_parseFrom]
      by_cases hd : p.data.isSome = true
      · rw [if_pos hd]
        exact hk
      · rw [if_neg hd]
        have hle : k ≤ size := by
          refine h size ?_
          rw [MemberCall.resizes, if_neg hd]
          rfl
        split <;> exact hle
  | _ => exact absurd hc id

/-- A program that leaves blocks of at least `k` bytes only. -/
theorem leaves_rule (k : Nat) :
    UserCode.Rule (fun p => k ≤ p.dataCapacity) fun s => s.Leaves k :=
  UserCode.Rule.of_respects (grown_respects k) fun hblock hc hp => MemberCall.leaves hblock hc hp

/-! ## Nothing makes a parcel writable again -/

omit [Target] in
theorem ensureWritableCapacity_writable (n : Nat) (p : Parcel) :
    ((ensureWritableCapacity n).run p).2.writable = p.writable := by
  rw [ensureWritableCapacity_storage p n]

theorem writable_rule (w : Prop) : UserCode.Rule (fun p => p.writable = true → w) fun _ => True :=
  UserCode.Rule.of_respects
    (Respects.of_storage (fun h hsame hw => h (hsame.writable ▸ hw))
      (fun n p h hw => h (ensureWritableCapacity_writable n p ▸ hw))
      (fun p h => by rw [ensureObjectsCapacity_eq]; exact h))
    fun hblock _ hp hw => hp ((MemberCall.onBlock_frame hblock _).2 hw)

/-! ## Taking back what a failed object has written -/

omit [Target] in
/-- **Rolling back is safe exactly if the block still holds the data there was.** -/
theorem rolledBack_sound_iff {p q : Parcel} (hp : Sound p) (hq : Sound q)
    (hw : q.writable = true → p.writable = true) :
    Sound (p.rolledBack q) ↔ p.dataSize ≤ q.dataCapacity := by
  constructor
  · intro h
    exact h.size_le
  · intro hle
    exact
      { hq with
        size_le := hle
        cursor_le := hp.cursor_le
        behind := fun h => hp.behind (hw h)
        log_ok := hq.log_ok }

/-- What is left of the block after a failing `Marshalling` that has met the condition. -/
theorem UserCode.Step.Restorable.size_le {p q : Parcel} {how : ObjectWriter} {o : ObjectHead}
    {m : UserCode} (h : (UserCode.Step.write p how o m).Restorable) (hp : Sound p)
    (hhow : how ≠ .remoteObject) (hr : o.asRemote = true) (hentry : how.entry o.asRemote p = some q)
    (hfail : (m.exec.run q).1 = false) : p.dataSize ≤ (m.exec.run q).2.dataCapacity := by
  have hleaves := h hhow hr q hentry hfail
  have hstart : p.dataSize ≤ q.dataCapacity := (leaves_rule p.dataSize).entry hp.size_le hentry
  exact (leaves_rule p.dataSize).reached hstart hleaves _ (m.final_mem_reached q)

/-- The state in which no slot has been found for the offset. -/
theorem refused_extended {p : Parcel} (hp : Sound p) :
    Extended p (p.rolledBack (ensureObjectsCapacity.run ((writeInt32 1).run p).2).2) := by
  have hflag := writeInt32_extends 1 p hp
  exact (hflag.trans (ensureObjectsCapacity_extends _ hflag.sound)).rollback hp

theorem recordObject_extends (x : Parcelable) (n : Nat) : Tracks Extends (recordObject x n) :=
  Tracks.bind (writeObjectOffset_extends n) fun _ =>
    Tracks.ite (fun _ => holdParcelable_extends x n) fun _ => Tracks.pure _

/-- A parcel that can be written after a `Marshalling` could be written before. -/
theorem failed_writable (p : Parcel) {q : Parcel} {how : ObjectWriter} {asRemote : Bool}
    {m : UserCode} (hentry : how.entry asRemote p = some q) (h : (m.exec.run q).2.writable = true) :
    p.writable = true := by
  have hrule := writable_rule (p.writable = true)
  have hstart : q.writable = true → p.writable = true := hrule.entry id hentry
  exact hrule.reached hstart (fun _ _ => trivial) _ (m.final_mem_reached q) h

theorem failed_sound {p q : Parcel} {how : ObjectWriter} {o : ObjectHead} {m : UserCode}
    (hc : (UserCode.Step.write p how o m).Restorable) (hp : Sound p) (hhow : how ≠ .remoteObject)
    (hr : o.asRemote = true) (hentry : how.entry o.asRemote p = some q)
    (hfail : (m.exec.run q).1 = false) (hend : Sound (m.exec.run q).2) :
    Sound (p.rolledBack (m.exec.run q).2) := by
  refine (rolledBack_sound_iff hp hend ?_).2 (hc.size_le hp hhow hr hentry hfail)
  exact failed_writable p hentry

/-! ## Whole programs -/

theorem sound_rule : UserCode.Rule Sound fun s => s.Within ∧ s.Restorable where
  call hc hp := MemberCall.sound hp _ hc.1
  flag hp := (writeInt32_extends 1 _ hp).sound
  slots hp := (ensureObjectsCapacity_extends _ hp).sound
  record x n hp := (recordObject_extends x n _ hp).sound
  refused hp := (refused_extended hp).sound
  failed hc hp hhow hr hentry hfail hbody :=
    failed_sound hc.2 hp hhow hr hentry hfail (hbody _ (UserCode.final_mem_reached _ _))

theorem Steady.both {p p' : Parcel} (h : Steady p p') (hp : Sound p ∧ Synced p) :
    Sound p' ∧ Synced p' := ⟨h.sound, h.synced hp.2⟩

/-- Without `SetDataSize` the write cursor stays at the end of the data as well. -/
theorem synced_rule :
    UserCode.Rule (fun p => Sound p ∧ Synced p) fun s => ¬ s.SetsSize ∧ s.Restorable where
  call {p α c} hc hp := by
    have hnone : c.setsSize = none := by
      rw [← Option.not_isSome_iff_eq_none]
      exact hc.1
    exact (MemberCall.steady hp.1 c hnone).both hp
  flag hp := (writeInt32_extends 1 _ hp.1).steady.both hp
  slots hp := (ensureObjectsCapacity_extends _ hp.1).steady.both hp
  record x n hp := (recordObject_extends x n _ hp.1).steady.both hp
  refused hp := (refused_extended hp.1).steady.both hp
  failed {p q how o m} hc hp hhow hr hentry hfail hbody :=
    ⟨failed_sound hc.2 hp.1 hhow hr hentry hfail (hbody _ (m.final_mem_reached q)).1,
      fun hw => hp.2 (failed_writable p hentry hw)⟩

/-- What holds of the buffer in every state, if `SetDataSize` is not called. -/
structure InBuffer (p : Parcel) : Prop where
  size_le : p.dataSize ≤ p.dataCapacity
  data : 0 < p.dataSize → p.data.isSome = true
  synced : p.writable = true → p.writeCursor = p.dataSize
  next_le : p.nextObjectIdx ≤ p.objectCursor
  /-- Every byte a writer has stored lay below the capacity of that moment. -/
  stores : ∀ a ∈ p.log, a.kind = .store → a.InBounds
  /-- Every byte a reader has handed out lay below the data size of that moment. -/
  loads : ∀ a ∈ p.log, a.kind = .load → a.InBounds

omit [Target] in
theorem Sound.inBuffer {p : Parcel} (hp : Sound p) (hs : Synced p) : InBuffer p where
  size_le := hp.size_le
  data hpos := by
    by_contra hd
    have hnull := hp.null (by simpa using hd)
    have hsize := hp.size_le
    omega
  synced := hs
  next_le := hp.next_le
  stores a ha hk := hp.log_ok a ha (by rw [hk]; decide)
  loads a ha hk := hp.log_ok a ha (by rw [hk]; decide)

/-- **The buffer invariant.** Any program of calls other than `SetDataSize`, whichever allocations
fail in it, stays inside the buffer, if no failing remote object has shrunk the block below the data
that `WriteParcelable` has found. -/
theorem buffer_bounds (allocator : Nat) (heap : Nat → Option Mem) (c : UserCode)
    (h : ∀ s ∈ c.steps (Parcel.new allocator heap), ¬ s.SetsSize ∧ s.Restorable) :
    ∀ q ∈ c.reached (Parcel.new allocator heap), InBuffer q := by
  intro q hq
  have hnew : Sound (Parcel.new allocator heap) ∧ Synced (Parcel.new allocator heap) :=
    ⟨Sound.new allocator heap, fun _ => rfl⟩
  obtain ⟨hsound, hsynced⟩ := synced_rule.reached hnew h q hq
  exact hsound.inBuffer hsynced

/-- A word is written, then a remote object that asks for a larger block, writes an object with
bytes of its own, and fails; then an object that is not remote, which gives the block up and fails. -/
def restoringClient : UserCode :=
  .call (.write (.scalar .int32 7)) fun _ =>
    .write .parcelable ⟨1, true, 0⟩
      (.call (.setDataCapacity 4096) fun _ =>
        .write .strongParcelable ⟨2, true, 0⟩
          (.call (.write (.buffer (some fun _ => 0) flatSize)) .ret) fun _ =>
            .call (.skipBytes 100) fun _ => .ret false) fun _ =>
    .write .parcelable ⟨3, false, 0⟩ (.call .flushBuffer fun _ => .ret false) fun _ => .ret true

omit [Target] in
theorem buffer_bounds_restoring :
    letI := Target.checked
    (∀ s ∈ restoringClient.steps (Parcel.new 0 ampleHeap), ¬ s.SetsSize ∧ s.Restorable) ∧
      ∀ q ∈ restoringClient.reached (Parcel.new 0 ampleHeap), InBuffer q := by
  have h : letI := Target.checked
      ∀ s ∈ restoringClient.steps (Parcel.new 0 ampleHeap), ¬ s.SetsSize ∧ s.Restorable := by
    decide +kernel
  let _ := Target.checked
  exact ⟨h, buffer_bounds 0 ampleHeap restoringClient h⟩

/-- A word is written, then a remote object that gives the block up and fails. -/
def flushingClient : UserCode :=
  .call (.write (.scalar .int32 7)) fun _ =>
    .write .parcelable ⟨1, true, 0⟩ (.call .flushBuffer fun _ => .ret false) .ret

omit [Target] in
/-- The four bytes of data come back, the block does not. -/
theorem rollback_overruns :
    letI := Target.checked
    (∀ s ∈ flushingClient.steps (Parcel.new 0 ampleHeap), ¬ s.SetsSize) ∧
      ∃ q ∈ flushingClient.reached (Parcel.new 0 ampleHeap),
        q.dataCapacity < q.dataSize ∧ q.data.isSome = false := by
  have h : letI := Target.checked
      ∀ s ∈ flushingClient.steps (Parcel.new 0 ampleHeap), ¬ s.SetsSize := by
    decide +kernel
  have hend : letI := Target.checked
      (flushingClient.exec.run (Parcel.new 0 ampleHeap)).2.dataCapacity <
          (flushingClient.exec.run (Parcel.new 0 ampleHeap)).2.dataSize ∧
        (flushingClient.exec.run (Parcel.new 0 ampleHeap)).2.data.isSome = false := by
    decide +kernel
  let _ := Target.checked
  exact ⟨h, _, flushingClient.final_mem_reached _, hend⟩

/-! ## `SetDataSize` -/

/-- **`SetDataSize` up to the write cursor keeps the bound**: in any program whose calls of
`SetDataSize` are so, and whose failing remote objects have left the block large enough, the data
stays inside the block, and so does what a reader may take. -/
theorem setDataSize_bounds (allocator : Nat) (heap : Nat → Option Mem) (c : UserCode)
    (h : ∀ s ∈ c.steps (Parcel.new allocator heap), s.Within ∧ s.Restorable) :
    ∀ p ∈ c.reached (Parcel.new allocator heap), p.dataSize ≤ p.dataCapacity ∧
      ∀ n ≤ p.getReadableBytes, 0 < n → p.data.isSome = true ∧ p.readCursor + n ≤ p.dataCapacity := by
  intro p hreached
  have hp := sound_rule.reached (Sound.new allocator heap) h p hreached
  have hsize := hp.size_le
  refine ⟨hsize, fun n hn hpos => ⟨hp.data_isSome hpos hn, ?_⟩⟩
  have hle := le_getReadableBytes.1 hn
  omega

/-- The size is lowered by the client, and again inside a remote object that then fails. -/
def loweringClient : UserCode :=
  .call (.write (.scalar .int32 7)) fun _ => .call (.setDataSize 2) fun _ =>
    .write .parcelable ⟨1, true, 0⟩
      (.call (.setDataSize 1) fun _ => .call (.setDataCapacity 2) fun _ => .ret false) fun _ =>
    .call (.write (.scalar .int32 8)) .ret

omit [Target] in
theorem setDataSize_bounds_lowered :
    letI := Target.checked
    (∀ s ∈ loweringClient.steps (Parcel.new 0 ampleHeap), s.Within ∧ s.Restorable) ∧
      ∀ p ∈ loweringClient.reached (Parcel.new 0 ampleHeap), p.dataSize ≤ p.dataCapacity := by
  have h : letI := Target.checked
      ∀ s ∈ loweringClient.steps (Parcel.new 0 ampleHeap), s.Within ∧ s.Restorable := by
    decide +kernel
  let _ := Target.checked
  exact ⟨h, fun p hp => (setDataSize_bounds 0 ampleHeap loweringClient h p hp).1⟩

/-- The size is raised past the write cursor, and a word is written behind the write cursor. -/
def raisingClient : UserCode :=
  .call (.write (.scalar .int32 7)) fun _ => .call (.setDataSize 64) fun _ =>
    .call (.write (.scalar .int32 8)) .ret

omit [Target] in
/-- Raising the data size past the write cursor and writing on leaves the block. -/
theorem setDataSize_overruns :
    letI := Target.checked
    ∃ q ∈ raisingClient.reached (Parcel.new 0 ampleHeap), q.dataCapacity < q.dataSize := by
  have hend : letI := Target.checked
      (raisingClient.exec.run (Parcel.new 0 ampleHeap)).2.dataCapacity <
        (raisingClient.exec.run (Parcel.new 0 ampleHeap)).2.dataSize := by
    decide +kernel
  let _ := Target.checked
  exact ⟨_, raisingClient.final_mem_reached _, hend⟩

/-- A write of one byte into a block with room, wherever the data ends. -/
theorem step_writeByte {p : Parcel} (hw : p.writable = true) (hd : p.data.isSome = true)
    (hroom : p.writeCursor < p.dataCapacity) (hcap : p.dataCapacity ≤ ptrdiffMax)
    (hsize : p.dataSize + 1 < sizeLimit) (v : BitVec 8) :
    let q := p.step (.write (.scalar .int8Unaligned v))
    q.writable = true ∧ q.data.isSome = true ∧ q.writeCursor = p.writeCursor + 1 ∧
      q.dataSize = p.dataSize + 1 ∧ q.dataCapacity = p.dataCapacity := by
  have hcur : p.writeCursor + 1 < sizeLimit := by
    simp only [ptrdiffMax, sizeLimit] at *
    omega
  have hfree : 1 ≤ p.getWritableBytes := le_getWritableBytes.2 (by omega)
  have hensure : (ensureWritableCapacity 1).run p = (true, p) := by
    rw [run_ensureWritableCapacity, if_neg (by simp [hw]), if_pos hfree, hd]
  have hstep : p.step (.write (.scalar .int8Unaligned v)) = ((CUtils.write v).run p).2 := rfl
  have hrun : (CUtils.write v).run p =
      (true,
        ((do storeBytes p.writeCursor 1 (Mem.ofList (Scalar.encode v)); advanceWrite 1).run p).2) := by
    rw [CUtils.write, run_unless]
    rw [show Scalar.width (BitVec 8) = 1 from rfl, hensure]
    rfl
  rw [hstep, hrun]
  simp only [storeBytes, advanceWrite, run_bind, run_modify, szAdd_of_lt hcur, szAdd_of_lt hsize]
  simp [hw, hd]

/-- Filling the block moves the end of the data by the room there was. -/
theorem run_writeBytes {p : Parcel} (hw : p.writable = true) (hd : p.data.isSome = true)
    (hcap : p.dataCapacity ≤ ptrdiffMax) {k : Nat} (hroom : p.writeCursor + k ≤ p.dataCapacity)
    (hsize : p.dataSize + k < sizeLimit) :
    let q := p.run (List.replicate k (.write (.scalar .int8Unaligned (0 : BitVec 8))))
    q.dataSize = p.dataSize + k ∧ q.dataCapacity = p.dataCapacity := by
  induction k generalizing p with
  | zero => exact ⟨rfl, rfl⟩
  | succ k ih =>
      obtain ⟨hw', hd', hcur', hsize', hcap'⟩ :=
        step_writeByte hw hd (by omega) hcap (by omega) (0 : BitVec 8)
      have hrest := ih hw' hd' (by omega) (by omega) (by omega)
      rw [List.replicate_succ]
      refine ⟨hrest.1.trans (by omega), hrest.2.trans hcap'⟩

/-- **The condition is exact**: a call of `SetDataSize` keeps the bound through everything that
may follow if and only if it stays at or below the write cursor. -/
theorem setDataSize_safe_iff {p : Parcel} (hp : Sound p) (hw : p.writable = true) {n : Nat}
    (hn : n ≤ p.dataCapacity) :
    (∀ ops : List Op, (∀ op ∈ ops, ¬ op.SetsSize) →
      ((p.step (.setDataSize n)).run ops).dataSize ≤
        ((p.step (.setDataSize n)).run ops).dataCapacity) ↔ n ≤ p.writeCursor := by
  constructor
  · intro hall
    by_contra hgt
    have hcap := hp.cap_le
    have hd : p.data.isSome = true := by
      by_contra hd
      have := hp.null (by simpa using hd)
      omega
    have hstep : p.step (.setDataSize n) = { p with dataSize := n } := by
      have : p.step (.setDataSize n) = ((setDataSize n).run p).2 := rfl
      rw [this, run_setDataSize, if_neg (by omega)]
    have hfill := run_writeBytes (p := { p with dataSize := n }) hw hd hcap
      (k := p.dataCapacity - p.writeCursor) (by show p.writeCursor + _ ≤ p.dataCapacity; omega)
      (by
        show n + _ < sizeLimit
        simp only [ptrdiffMax, sizeLimit] at *
        omega)
    have := hall (List.replicate (p.dataCapacity - p.writeCursor)
      (.write (.scalar .int8Unaligned (0 : BitVec 8)))) (by
        intro op hop
        rw [List.eq_of_mem_replicate hop]
        exact id)
    rw [hstep, hfill.1, hfill.2] at this
    change n + (p.dataCapacity - p.writeCursor) ≤ p.dataCapacity at this
    omega
  · intro hle ops hops
    have hsound : Sound (p.step (.setDataSize n)) := sound_step hp fun _ => hle
    refine (sound_run hsound (Along.of_forall (fun q op hop => ?_) _)).size_le
    cases op with
    | setDataSize m => exact absurd trivial (hops _ hop)
    | _ => trivial

end CUtils
