import CUtils.Parcel.Invariant
import CUtils.Parcel.Tracking

/-!
# User code

`virtual bool Marshalling(Parcel &parcel) const` is handed the parcel itself, and may call any public
member of it: the ones that move the block or the cursors, and the writers of further objects.
The bodies of `Marshals` only write, read, skip and record; here are all bodies.

* `MemberCall` — a call of a public member that runs no code of the caller.
* `UserCode` — any program of such calls and of writes of objects, each chosen from the results of
  the earlier ones; every object brings its `Marshalling`, which is a program of the same kind.
* `UserCode.exec` — what it does to a parcel, and `UserCode.steps` and `UserCode.reached`, the calls
  it makes and the states it goes through, at every depth of nesting.

What the client does with a parcel from its construction on is such a program too. The templates that
hand the parcel to user code do so last (`ReadObject`, `ReadParcelable`, `WriteObject` of a type that
is not remote), so that this code is part of the client's.

A run is reasoned about by what each call preserves (`UserCode.Rule`).
-/

namespace CUtils

open StateRun ByteMemory Parcel

variable [Target]

/-! ## Calls -/

/-- The writers that run the `Marshalling` of the object they are given. -/
inductive ObjectWriter
  | remoteObject | parcelable | strongParcelable
  deriving DecidableEq, Repr

def ObjectWriter.exec : ObjectWriter → Option Parcelable → ParcelM Bool
  | remoteObject => writeRemoteObject
  | parcelable => writeParcelable
  | strongParcelable => writeStrongParcelable

/-- A call, by the type of its result. -/
inductive MemberCall : Type → Type 1
  | write (w : Writer) : MemberCall Bool
  | read {α : Type} (m : ParcelM α) (h : Reader m) : MemberCall α
  /-- One of the `const` members, which tell something of the state. -/
  | tell {α : Type} (f : Parcel → α) : MemberCall α
  | writeNull (how : ObjectWriter) : MemberCall Bool
  | injectOffsets (offsets : Option (List Nat)) : MemberCall Unit
  | setMaxCapacity (maxCapacity : UInt64) : MemberCall Bool
  | setDataCapacity (newCapacity : Nat) : MemberCall Bool
  | setDataSize (dataSize : Nat) : MemberCall Bool
  | setAllocator (allocator : Option Nat) : MemberCall Bool
  | skipBytes (bytes : Nat) : MemberCall Unit
  | rewindRead (newPosition : Nat) : MemberCall Bool
  | rewindWrite (newPosition : Nat) : MemberCall Bool
  | flushBuffer : MemberCall Unit
  /-- The caller passes a block of the size it states. -/
  | parseFrom (data : Option Mem) (size : Nat) (h : size ≤ ptrdiffMax)
      (hnull : data = none → size = 0) : MemberCall Bool

def MemberCall.exec {α : Type} : MemberCall α → ParcelM α
  | write w => w.exec
  | read m _ => m
  | tell f => f <$> get
  | writeNull how => how.exec none
  | injectOffsets offsets => CUtils.injectOffsets offsets
  | setMaxCapacity n => CUtils.setMaxCapacity n.toNat
  | setDataCapacity n => CUtils.setDataCapacity n
  | setDataSize n => CUtils.setDataSize n
  | setAllocator a => CUtils.setAllocator a
  | skipBytes n => CUtils.skipBytes n
  | rewindRead n => CUtils.rewindRead n
  | rewindWrite n => CUtils.rewindWrite n
  | flushBuffer => CUtils.flushBuffer
  | parseFrom data size _ _ => CUtils.parseFrom data size

/-- The call changes or gives up the block, or changes what limits it. -/
def MemberCall.OnBlock {α : Type} : MemberCall α → Prop
  | setMaxCapacity _ | setDataCapacity _ | setDataSize _ | setAllocator _ | rewindWrite _
  | flushBuffer | parseFrom .. => True
  | _ => False

theorem MemberCall.tracks {R : Parcel → Parcel → Prop} [IsPreorder Parcel R] (h : Respects R)
    {α : Type} (c : MemberCall α) (hc : ¬ c.OnBlock) : Tracks R c.exec := by
  cases c with
  | write w => exact w.tracks h.toRespectsData
  | read m hm => exact hm.tracks h.toRespectsData
  | tell f => exact fun p => refl_of R p
  | writeNull how =>
      have hnone : ∀ x ∈ (none : Option Parcelable), Tracks R x.marshalling := by simp
      cases how with
      | remoteObject => exact writeRemoteObject_tracks h hnone
      | parcelable => exact writeParcelable_tracks h hnone
      | strongParcelable => exact writeStrongParcelable_tracks h hnone
  | injectOffsets offsets => exact injectOffsets_tracks h offsets
  | skipBytes n => exact skipBytes_tracks h.toRespectsData n
  | rewindRead n => exact h.rewind n
  | _ => exact absurd trivial hc

/-- A call that deals with the block stores nothing and makes no parcel writable again. -/
theorem MemberCall.onBlock_frame {α : Type} {c : MemberCall α} (hc : c.OnBlock) (p : Parcel) :
    (c.exec.run p).2.log = p.log ∧ ((c.exec.run p).2.writable = true → p.writable = true) := by
  have hstorage : ∀ {p' : Parcel}, Storage p p' →
      p'.log = p.log ∧ (p'.writable = true → p.writable = true) := by
    intro p' h
    rw [h]
    exact ⟨rfl, id⟩
  have hkept : ∀ {p' : Parcel}, p'.log = p.log → p'.writable = p.writable →
      p'.log = p.log ∧ (p'.writable = true → p.writable = true) :=
    fun hlog hw => ⟨hlog, fun h => hw ▸ h⟩
  cases c with
  | setMaxCapacity n => exact hstorage (setMaxCapacity_storage p n.toNat)
  | setDataCapacity n => exact hstorage (setDataCapacity_storage p n)
  | setDataSize n =>
      have hsame := setDataSize_sameBlock p n
      exact hkept hsame.log hsame.writable
  | setAllocator a => exact hstorage (setAllocator_storage p a)
  | rewindWrite n =>
      have hsame := rewindWrite_sameBlock p n
      exact hkept hsame.log hsame.writable
  | flushBuffer =>
      rw [MemberCall.exec, run_flushBuffer]
      cases p.allocator.isNone <;> cases p.data.isSome <;> cases p.objectOffsets.isSome <;>
        exact hkept rfl rfl
  | parseFrom data size hsize hnull =>
      have hlocked : ∀ {p' : Parcel}, p'.log = p.log → p'.writable = false →
          p'.log = p.log ∧ (p'.writable = true → p.writable = true) :=
        fun hlog hw => ⟨hlog, fun h => absurd (hw.symm.trans h) (by simp)⟩
      rw [MemberCall.exec, run_parseFrom]
      split
      · exact hkept rfl rfl
      · split <;> exact hlocked rfl rfl
  | _ => exact absurd hc id

/-! ## Programs -/

/-- An object without its `Marshalling`. -/
structure ObjectHead where
  id : Nat
  asRemote : Bool
  behavior : BitVec 8

def ObjectHead.parcelable (o : ObjectHead) (marshalling : ParcelM Bool) : Parcelable where
  id := o.id
  asRemote := o.asRemote
  behavior := o.behavior
  marshalling := marshalling

inductive UserCode : Type 1
  | ret (b : Bool)
  | call {α : Type} (c : MemberCall α) (next : α → UserCode)
  | write (how : ObjectWriter) (o : ObjectHead) (marshalling : UserCode) (next : Bool → UserCode)

def UserCode.exec : UserCode → ParcelM Bool
  | ret b => pure b
  | call c next => c.exec >>= fun a => (next a).exec
  | write how o marshalling next =>
      how.exec (some (o.parcelable marshalling.exec)) >>= fun b => (next b).exec

/-! ### Where an object's own code runs -/

/-- Where `WriteRemoteObject` hands the parcel to the `Marshalling`, if it gets that far. -/
def Parcel.reserved (p : Parcel) : Option Parcel :=
  let r := ensureObjectsCapacity.run p
  if r.1 = true then some r.2 else none

/-- The state in which the `Marshalling` of an object starts, if it is run. -/
def ObjectWriter.entry (how : ObjectWriter) (asRemote : Bool) (p : Parcel) : Option Parcel :=
  match how with
  | remoteObject => if asRemote = true then p.reserved else none
  | parcelable | strongParcelable =>
      let flag := (writeInt32 1).run p
      if flag.1 = true then (if asRemote = true then flag.2.reserved else some flag.2) else none

/-- One call of a program, in the state it is made in. -/
inductive UserCode.Step : Type 1
  | call (p : Parcel) {α : Type} (c : MemberCall α)
  | write (p : Parcel) (how : ObjectWriter) (o : ObjectHead) (marshalling : UserCode)

/-- The calls the program makes, those of the `Marshalling`s it runs included. -/
def UserCode.steps : UserCode → Parcel → List UserCode.Step
  | ret _, _ => []
  | call c next, p => .call p c :: (next (c.exec.run p).1).steps (c.exec.run p).2
  | write how o marshalling next, p =>
      let r := (how.exec (some (o.parcelable marshalling.exec))).run p
      .write p how o marshalling ::
        ((how.entry o.asRemote p).elim [] marshalling.steps ++ (next r.1).steps r.2)

/-- The states between the calls of the program, and between those of the `Marshalling`s. -/
def UserCode.reached : UserCode → Parcel → List Parcel
  | ret _, p => [p]
  | call c next, p => p :: (next (c.exec.run p).1).reached (c.exec.run p).2
  | write how o marshalling next, p =>
      let r := (how.exec (some (o.parcelable marshalling.exec))).run p
      p :: ((how.entry o.asRemote p).elim [] marshalling.reached ++ (next r.1).reached r.2)

theorem UserCode.final_mem_reached (c : UserCode) (p : Parcel) : (c.exec.run p).2 ∈ c.reached p := by
  induction c generalizing p with
  | ret b => exact List.mem_singleton.2 rfl
  | call c next ih => exact List.mem_cons_of_mem _ (ih _ _)
  | write how o marshalling next _ ih =>
      exact List.mem_cons_of_mem _ (List.mem_append_right _ (ih _ _))

/-! ## What a writer of objects does around a `Marshalling` -/

/-- `q`, with the write cursor and the size of the data that `p` had. -/
def Parcel.rolledBack (p q : Parcel) : Parcel :=
  { q with writeCursor := p.writeCursor, dataSize := p.dataSize }

/-- What a writer called in `p` makes of the state `q` in which a remote object has failed. -/
def ObjectWriter.failed (how : ObjectWriter) (p q : Parcel) : Parcel :=
  match how with
  | remoteObject => q
  | parcelable | strongParcelable => p.rolledBack q

/-- The object that `WriteRemoteObject` gets to see. -/
def ObjectWriter.passes (how : ObjectWriter) (x : Parcelable) : Parcelable :=
  match how with
  | remoteObject | parcelable => x
  | strongParcelable => x.setBehavior holdObject

/-- What `WriteRemoteObject` does after a `Marshalling` that has succeeded. -/
def recordObject (x : Parcelable) (placeholder : Nat) : ParcelM Unit := do
  let _ ← writeObjectOffset placeholder
  if x.testBehavior holdObject then holdParcelable x placeholder

/-- The state a writer leaves when it does not get to the `Marshalling`. -/
def ObjectWriter.stopped (how : ObjectWriter) (asRemote : Bool) (p : Parcel) : Parcel :=
  match how with
  | remoteObject => if asRemote = true then (ensureObjectsCapacity.run p).2 else p
  | parcelable | strongParcelable =>
      let flag := (writeInt32 1).run p
      if flag.1 = true then p.rolledBack (ensureObjectsCapacity.run flag.2).2 else flag.2

omit [Target] in
theorem entry_reserved {p q : Parcel} (h : p.reserved = some q) :
    (ensureObjectsCapacity.run p).1 = true ∧ (ensureObjectsCapacity.run p).2 = q ∧
      q.writeCursor = p.writeCursor := by
  rw [Parcel.reserved] at h
  by_cases hok : (ensureObjectsCapacity.run p).1 = true
  · rw [if_pos hok] at h
    refine ⟨hok, Option.some.inj h, ?_⟩
    rw [← Option.some.inj h, ensureObjectsCapacity_eq]
  · rw [if_neg hok] at h
    cases h

omit [Target] in
theorem reserved_none {p : Parcel} (h : p.reserved = none) :
    ¬ (ensureObjectsCapacity.run p).1 = true := by
  intro hok
  rw [Parcel.reserved, if_pos hok] at h
  cases h

omit [Target] in
theorem run_writeRemoteObject_entered {x : Parcelable} (hr : x.asRemote = true) {p q : Parcel}
    (h : p.reserved = some q) :
    (writeRemoteObject (some x)).run p =
      let r := x.marshalling.run q
      if r.1 = true then (true, ((recordObject x q.writeCursor).run r.2).2) else (false, r.2) := by
  obtain ⟨hok, rfl, hcur⟩ := entry_reserved h
  rw [run_writeRemoteObject hr]
  dsimp only
  rw [if_pos hok, hcur]
  split
  · simp only [recordObject, run_bind, run_ite, run_pure]
    split <;> rfl
  · rfl

omit [Target] in
/-- A write that gets to the `Marshalling`. -/
theorem ObjectWriter.run_entered {how : ObjectWriter} {o : ObjectHead} {p q : Parcel}
    (h : how.entry o.asRemote p = some q) (m : ParcelM Bool) :
    (how.exec (some (o.parcelable m))).run p =
      let r := m.run q
      if o.asRemote = true then
        if r.1 = true then
          (true, ((recordObject (how.passes (o.parcelable m)) q.writeCursor).run r.2).2)
        else (false, how.failed p r.2)
      else r := by
  have hflagged : ∀ x : Parcelable, x.asRemote = o.asRemote → x.marshalling = m →
      ObjectWriter.entry .parcelable o.asRemote p = some q →
      (writeParcelable (some x)).run p =
        let r := m.run q
        if o.asRemote = true then
          if r.1 = true then (true, ((recordObject x q.writeCursor).run r.2).2)
          else (false, p.rolledBack r.2)
        else r := by
    intro x hx hm hentry
    rw [ObjectWriter.entry] at hentry
    by_cases hok : ((writeInt32 1).run p).1 = true
    · rw [if_pos hok] at hentry
      cases hr : o.asRemote with
      | true =>
          rw [hr] at hx hentry
          rw [run_writeParcelable_remote hx]
          dsimp only
          rw [if_pos hok, run_writeRemoteObject_entered hx hentry, if_pos rfl, hm]
          dsimp only
          by_cases hbody : (m.run q).1 = true
          · rw [if_pos hbody, if_pos rfl, if_pos hbody]
          · rw [if_neg hbody, if_neg Bool.false_ne_true, if_neg hbody]
            rfl
      | false =>
          rw [hr] at hx hentry
          rw [if_neg Bool.false_ne_true] at hentry
          rw [run_writeParcelable_plain hx, run_andThen, if_pos hok, Option.some.inj hentry, hm]
          rfl
    · rw [if_neg hok] at hentry
      cases hentry
  cases how with
  | remoteObject =>
      rw [ObjectWriter.entry] at h
      by_cases hr : o.asRemote = true
      · rw [if_pos hr] at h
        rw [if_pos hr]
        exact run_writeRemoteObject_entered (x := o.parcelable m) hr h
      · rw [if_neg hr] at h
        cases h
  | parcelable => exact hflagged (o.parcelable m) rfl rfl h
  | strongParcelable => exact hflagged ((o.parcelable m).setBehavior holdObject) rfl rfl h

omit [Target] in
/-- A write that does not get to the `Marshalling` returns `false`. -/
theorem ObjectWriter.run_stopped {how : ObjectWriter} {o : ObjectHead} {p : Parcel}
    (h : how.entry o.asRemote p = none) (m : ParcelM Bool) :
    (how.exec (some (o.parcelable m))).run p = (false, how.stopped o.asRemote p) := by
  have hflagged : ∀ x : Parcelable, x.asRemote = o.asRemote →
      ObjectWriter.entry .parcelable o.asRemote p = none →
      (writeParcelable (some x)).run p = (false, ObjectWriter.stopped .parcelable o.asRemote p) := by
    intro x hx hentry
    rw [ObjectWriter.entry] at hentry
    rw [ObjectWriter.stopped]
    by_cases hok : ((writeInt32 1).run p).1 = true
    · rw [if_pos hok] at hentry
      rw [if_pos hok]
      cases hr : o.asRemote with
      | true =>
          rw [hr] at hx hentry
          have hno := reserved_none hentry
          rw [run_writeParcelable_remote hx]
          dsimp only
          rw [if_pos hok, run_writeRemoteObject hx]
          dsimp only
          rw [if_neg hno, if_neg Bool.false_ne_true]
          rfl
      | false =>
          rw [hr] at hentry
          cases hentry
    · rw [if_neg hok]
      cases hr : o.asRemote with
      | true =>
          rw [run_writeParcelable_remote (hx.trans hr)]
          dsimp only
          rw [if_neg hok]
      | false => rw [run_writeParcelable_plain (hx.trans hr), run_andThen, if_neg hok]
  cases how with
  | remoteObject =>
      rw [ObjectWriter.entry] at h
      rw [ObjectWriter.stopped]
      by_cases hr : o.asRemote = true
      · rw [if_pos hr] at h
        rw [if_pos hr]
        have hno := reserved_none h
        rw [ObjectWriter.exec, run_writeRemoteObject (x := o.parcelable m) hr]
        dsimp only
        rw [if_neg hno]
      · have hplain : (o.parcelable m).asRemote = false := Bool.eq_false_iff.2 hr
        rw [if_neg hr]
        simp only [ObjectWriter.exec, writeRemoteObject, hplain, Bool.not_false, if_true, run_bind,
          run_get, run_pure]
  | parcelable => exact hflagged (o.parcelable m) rfl h
  | strongParcelable => exact hflagged ((o.parcelable m).setBehavior holdObject) rfl h

/-! ## Invariants of every program -/

/-- What `I` has to be shown for if it is to hold throughout every program whose steps meet `C`. -/
structure UserCode.Rule (I : Parcel → Prop) (C : UserCode.Step → Prop) : Prop where
  call : ∀ {p : Parcel} {α : Type} {c : MemberCall α}, C (.call p c) → I p → I (c.exec.run p).2
  flag : ∀ {p : Parcel}, I p → I ((writeInt32 1).run p).2
  slots : ∀ {p : Parcel}, I p → I (ensureObjectsCapacity.run p).2
  record : ∀ {p : Parcel} (x : Parcelable) (placeholder : Nat), I p →
    I ((recordObject x placeholder).run p).2
  /-- No slot was found for the offset of a remote object, and the flag is taken back. -/
  refused : ∀ {p : Parcel}, I p →
    I (p.rolledBack (ensureObjectsCapacity.run ((writeInt32 1).run p).2).2)
  /-- The `Marshalling` of a remote object has failed, and what was written is taken back. -/
  failed : ∀ {p q : Parcel} {how : ObjectWriter} {o : ObjectHead} {m : UserCode},
    C (.write p how o m) → I p → how ≠ .remoteObject → o.asRemote = true →
    how.entry o.asRemote p = some q → (m.exec.run q).1 = false → (∀ r ∈ m.reached q, I r) →
    I (p.rolledBack (m.exec.run q).2)

namespace UserCode

variable {I : Parcel → Prop} {C : UserCode.Step → Prop}

theorem Rule.entry (h : Rule I C) {how : ObjectWriter} {asRemote : Bool} {p q : Parcel} (hp : I p)
    (hentry : how.entry asRemote p = some q) : I q := by
  have hreserved : ∀ {r : Parcel}, I r → r.reserved = some q → I q := by
    intro r hr hq
    rw [← (entry_reserved hq).2.1]
    exact h.slots hr
  have hflagged : ObjectWriter.entry .parcelable asRemote p = some q → I q := by
    intro hentry
    rw [ObjectWriter.entry] at hentry
    by_cases hok : ((writeInt32 1).run p).1 = true
    · rw [if_pos hok] at hentry
      by_cases hr : asRemote = true
      · rw [if_pos hr] at hentry
        exact hreserved (h.flag hp) hentry
      · rw [if_neg hr] at hentry
        exact Option.some.inj hentry ▸ h.flag hp
    · rw [if_neg hok] at hentry
      cases hentry
  cases how with
  | remoteObject =>
      rw [ObjectWriter.entry] at hentry
      by_cases hr : asRemote = true
      · rw [if_pos hr] at hentry
        exact hreserved hp hentry
      · rw [if_neg hr] at hentry
        cases hentry
  | parcelable => exact hflagged hentry
  | strongParcelable => exact hflagged hentry

theorem Rule.stopped (h : Rule I C) (how : ObjectWriter) (asRemote : Bool) {p : Parcel} (hp : I p) :
    I (how.stopped asRemote p) := by
  have hflagged : I (ObjectWriter.stopped .parcelable asRemote p) := by
    rw [ObjectWriter.stopped]
    split
    · exact h.refused hp
    · exact h.flag hp
  cases how with
  | remoteObject =>
      rw [ObjectWriter.stopped]
      split
      · exact h.slots hp
      · exact hp
  | parcelable => exact hflagged
  | strongParcelable => exact hflagged

/-- What a write of an object preserves, if the `Marshalling` does. -/
theorem Rule.write (h : Rule I C) {how : ObjectWriter} {o : ObjectHead} {m : UserCode} {p : Parcel}
    (hc : C (.write p how o m)) (hp : I p)
    (hbody : ∀ q, how.entry o.asRemote p = some q → ∀ r ∈ m.reached q, I r) :
    I ((how.exec (some (o.parcelable m.exec))).run p).2 := by
  cases hentry : how.entry o.asRemote p with
  | none =>
      rw [ObjectWriter.run_stopped hentry]
      exact h.stopped how o.asRemote hp
  | some q =>
      have hend := hbody q hentry _ (m.final_mem_reached q)
      rw [ObjectWriter.run_entered hentry]
      dsimp only
      by_cases hr : o.asRemote = true
      · rw [if_pos hr]
        cases hok : (m.exec.run q).1 with
        | true =>
            rw [if_pos rfl]
            exact h.record _ _ hend
        | false =>
            rw [if_neg Bool.false_ne_true]
            have hback : how ≠ .remoteObject → I (p.rolledBack (m.exec.run q).2) :=
              fun hne => h.failed hc hp hne hr hentry hok (hbody q hentry)
            cases how with
            | remoteObject => exact hend
            | parcelable => exact hback (by simp)
            | strongParcelable => exact hback (by simp)
      · rw [if_neg hr]
        exact hend

/-- **The run rule**: what every step preserves holds in every state of the program, at every depth
of nesting. -/
theorem Rule.reached (h : Rule I C) {c : UserCode} {p : Parcel} (hp : I p)
    (hc : ∀ s ∈ c.steps p, C s) : ∀ q ∈ c.reached p, I q := by
  induction c generalizing p with
  | ret b =>
      intro q hq
      rw [List.mem_singleton.1 hq]
      exact hp
  | call c next ih =>
      intro q hq
      rcases List.mem_cons.1 hq with rfl | hq
      · exact hp
      · exact ih _ (h.call (hc _ (by simp [steps])) hp) (fun s hs => hc s (by simp [steps, hs])) q hq
  | write how o m next ihbody ih =>
      have hbody : ∀ q, how.entry o.asRemote p = some q → ∀ r ∈ m.reached q, I r := by
        intro q hentry
        exact ihbody (h.entry hp hentry) fun s hs => hc s (by simp [steps, hentry, hs])
      have hafter := h.write (hc _ (by simp [steps])) hp hbody
      intro q hq
      rcases List.mem_cons.1 hq with rfl | hq
      · exact hp
      · rcases List.mem_append.1 hq with hq | hq
        · cases hentry : how.entry o.asRemote p with
          | none => simp [hentry] at hq
          | some r =>
              rw [hentry] at hq
              exact hbody r hentry q hq
        · exact ih _ hafter (fun s hs => hc s (by simp [steps, hs])) q hq

/-- For what the other calls respect, the calls that deal with the block are left. -/
theorem Rule.of_respects (h : Respects (Kept I))
    (hcall : ∀ {p : Parcel} {α : Type} {c : MemberCall α}, c.OnBlock → C (.call p c) → I p →
      I (c.exec.run p).2) : Rule I C where
  call {p α c} hc hp := by
    by_cases hblock : c.OnBlock
    · exact hcall hblock hc hp
    · exact c.tracks h hblock p hp
  flag hp := write_tracks h.toRespectsData (1 : BitVec 32) _ hp
  slots hp := h.slots _ hp
  record x n hp :=
    Tracks.bind (h.offset n) (fun _ => Tracks.ite (fun _ => h.hold x n) fun _ => Tracks.pure _) _ hp
  refused hp := h.rollback _ _ _ (h.slots _ (write_tracks h.toRespectsData (1 : BitVec 32) _ hp))
  failed _ _ _ _ _ _ hbody := h.rollback _ _ _ (hbody _ (final_mem_reached _ _))

end UserCode

/-! ## The bodies and the runs of `Op` -/

theorem ObjectWriter.exists_code (how : ObjectWriter) {o : Option Parcelable}
    (ho : ∀ x ∈ o, ∃ c : UserCode, c.exec = x.marshalling) (next : Bool → UserCode) :
    ∃ c : UserCode, c.exec = how.exec o >>= fun b => (next b).exec := by
  cases o with
  | none => exact ⟨.call (.writeNull how) next, rfl⟩
  | some x =>
      obtain ⟨c, hc⟩ := ho x rfl
      refine ⟨.write how ⟨x.id, x.asRemote, x.behavior⟩ c next, ?_⟩
      rw [UserCode.exec, hc]
      rfl

/-- The bodies of `Marshals` are user code. -/
theorem Marshals.exists_code {m : ParcelM Bool} (h : Marshals m) : ∃ c : UserCode, c.exec = m := by
  have hcall : ∀ {α : Type} (c : MemberCall α) {k : α → ParcelM Bool},
      (∀ a, ∃ c : UserCode, c.exec = k a) → ∃ c' : UserCode, c'.exec = c.exec >>= k := by
    intro α c k hk
    choose next hnext using hk
    refine ⟨.call c next, ?_⟩
    rw [UserCode.exec]
    exact congrArg _ (funext hnext)
  have hwrite : ∀ (how : ObjectWriter) {o : Option Parcelable} {k : Bool → ParcelM Bool},
      (∀ x ∈ o, ∃ c : UserCode, c.exec = x.marshalling) → (∀ b, ∃ c : UserCode, c.exec = k b) →
      ∃ c : UserCode, c.exec = how.exec o >>= k := by
    intro how o k ho hk
    choose next hnext using hk
    obtain ⟨c, hc⟩ := how.exists_code ho next
    exact ⟨c, hc.trans (congrArg _ (funext hnext))⟩
  induction h with
  | ret b => exact ⟨.ret b, rfl⟩
  | write w _ ih => exact hcall (.write w) ih
  | read hm _ ih => exact hcall (.read _ hm) ih
  | skipBytes n _ ih => exact hcall (.skipBytes n) fun _ => ih
  | rewindRead n _ ih => exact hcall (.rewindRead n) ih
  | injectOffsets offsets _ ih => exact hcall (.injectOffsets offsets) fun _ => ih
  | writeRemoteObject o _ _ iho ih => exact hwrite .remoteObject iho ih
  | writeParcelable o _ _ iho ih => exact hwrite .parcelable iho ih
  | writeStrongParcelable o _ _ iho ih => exact hwrite .strongParcelable iho ih

/-- A run of operations is a program that asks for no result. -/
theorem run_exists_code (ops : List Op) :
    ∃ c : UserCode, ∀ p : Parcel, (c.exec.run p).2 = p.run ops := by
  induction ops with
  | nil => exact ⟨.ret true, fun _ => rfl⟩
  | cons op ops ih =>
      obtain ⟨next, hnext⟩ := ih
      have hcall : ∀ {α : Type} (c : MemberCall α), (∀ p, (c.exec.run p).2 = p.step op) →
          ∃ c : UserCode, ∀ p : Parcel, (c.exec.run p).2 = p.run (op :: ops) := by
        intro α c hstep
        refine ⟨.call c fun _ => next, fun p => ?_⟩
        rw [Parcel.run, List.foldl_cons, ← hstep p]
        exact hnext _
      have hwrite : ∀ (how : ObjectWriter) (o : Object), (∀ p, ((how.exec o.ptr).run p).2 = p.step op) →
          ∃ c : UserCode, ∀ p : Parcel, (c.exec.run p).2 = p.run (op :: ops) := by
        intro how o hstep
        obtain ⟨c, hc⟩ := how.exists_code (fun x hx => (o.marshals x hx).exists_code) fun _ => next
        refine ⟨c, fun p => ?_⟩
        rw [hc, Parcel.run, List.foldl_cons, ← hstep p]
        exact hnext _
      cases op with
      | write w => exact hcall (.write w) fun _ => rfl
      | read m hm => exact hcall (.read m hm) fun _ => rfl
      | writeRemoteObject o => exact hwrite .remoteObject o fun _ => rfl
      | writeParcelable o => exact hwrite .parcelable o fun _ => rfl
      | writeStrongParcelable o => exact hwrite .strongParcelable o fun _ => rfl
      | injectOffsets offsets => exact hcall (.injectOffsets offsets) fun _ => rfl
      | setMaxCapacity n => exact hcall (.setMaxCapacity n) fun _ => rfl
      | setDataCapacity n => exact hcall (.setDataCapacity n) fun _ => rfl
      | setDataSize n => exact hcall (.setDataSize n) fun _ => rfl
      | setAllocator a => exact hcall (.setAllocator a) fun _ => rfl
      | skipBytes n => exact hcall (.skipBytes n) fun _ => rfl
      | rewindRead n => exact hcall (.rewindRead n) fun _ => rfl
      | rewindWrite n => exact hcall (.rewindWrite n) fun _ => rfl
      | flushBuffer => exact hcall .flushBuffer fun _ => rfl
      | parseFrom data size hsize hnull => exact hcall (.parseFrom data size hsize hnull) fun _ => rfl

end CUtils
