import CUtils.Parcel.Invariant

/-!
# What a failed write leaves behind

A writer that returns `false` should not have changed the data. The writers with one piece meet
this; those that put a length or a count first do not, because nothing takes it back when a later
piece is refused. `writer_atomic_iff` says when each of them does.

`WriteParcelable` takes the data back on one of its paths only, and never the offsets that nested
objects have recorded. `writeParcelable_atomic_iff` says which objects it is atomic for.
-/

namespace CUtils

open StateRun ByteMemory Parcel

variable [Target]

/-! ## Writers -/

/-- The requests of a writer, in order. -/
def Writer.needs (w : Writer) : List Need := w.script.needs

/-- **When a writer is all or nothing**: if its first request is refused, or none is. -/
theorem writer_atomic_iff {p : Parcel} (hp : Sound p) (w : Writer) :
    ((w.exec.run p).1 = false → SameData p (w.exec.run p).2) ↔
      (p.room.fits (w.needs.take 1) = true → p.room.fits w.needs = true) := by
  rw [w.exec_eq]
  exact w.script.atomic_iff hp

/-- A parcel with eight bytes left below its limit. -/
def almostFull : Parcel :=
  letI := Target.checked
  (Parcel.new 0 ampleHeap).step (.write (.buffer (some fun _ => 0) 204792))

omit [Target] in
theorem almostFull_sound : Sound almostFull := by
  let _ := Target.checked
  exact (steady_step (Sound.new 0 ampleHeap) id).sound

/-- The same parcel, with the eight bytes taken. -/
def full : Parcel :=
  letI := Target.checked
  almostFull.step (.write (.string [97]))

omit [Target] in
theorem full_sound : Sound full := by
  let _ := Target.checked
  exact (steady_step almostFull_sound id).sound

omit [Target] in
/-- The length is refused, and nothing has been written. -/
theorem writer_atomic_iff_full :
    letI := Target.checked
    let w : Writer := .string [97, 98, 99, 100]
    full.writeCursor = almostFull.writeCursor + 8 ∧ (w.exec.run full).1 = false ∧
      SameData full (w.exec.run full).2 := by
  have hfull : full.writeCursor = almostFull.writeCursor + 8 := by decide +kernel
  have hrefused : letI := Target.checked
      (((Writer.string [97, 98, 99, 100]).exec.run full).1 = false) := by decide +kernel
  have hfits : letI := Target.checked
      (full.room.fits ((Writer.string [97, 98, 99, 100]).needs.take 1) = true →
        full.room.fits (Writer.string [97, 98, 99, 100]).needs = true) := by decide +kernel
  let _ := Target.checked
  exact ⟨hfull, hrefused, (writer_atomic_iff full_sound _).2 hfits hrefused⟩

omit [Target] in
/-- The length fits into the last eight bytes, the characters do not. -/
theorem writeString_leaves_length :
    letI := Target.checked
    let w : Writer := .string [97, 98, 99, 100]
    ¬ ((w.exec.run almostFull).1 = false → SameData almostFull (w.exec.run almostFull).2) := by
  let _ := Target.checked
  intro w h
  have hfalse : (w.exec.run almostFull).1 = false := by decide +kernel
  have hcur : (w.exec.run almostFull).2.writeCursor ≠ almostFull.writeCursor := by decide +kernel
  exact hcur (h hfalse).cursor

/-! ## Objects -/

/-- The data and the offset table are as before. -/
structure Untouched (p p' : Parcel) : Prop where
  data : SameData p p'
  offsets : p'.offsets = p.offsets

theorem Extended.untouched_iff {p p' : Parcel} (h : Extended p p') :
    Untouched p p' ↔ p'.writeCursor = p.writeCursor ∧ p'.offsets = p.offsets := by
  obtain ⟨n, hcur, hsize⟩ := h.moved
  constructor
  · intro hu
    exact ⟨hu.data.cursor, hu.offsets⟩
  · rintro ⟨hc, ho⟩
    exact ⟨⟨hc, by omega, h.data.read_eq (by omega)⟩, ho⟩

/-- What decides whether a failing `WriteParcelable` of `x` has left traces: whether its
`Marshalling` fails after the flag has been written and, for a remote object, after it has
recorded offsets. -/
def Parcelable.Atomic (x : Parcelable) (p : Parcel) : Prop :=
  p.room.fits [wordNeed 4] = true →
    let flagged := ((writeInt32 1).run p).2
    let ensured := ensureObjectsCapacity.run flagged
    if x.asRemote = true then
      ensured.1 = true → (x.marshalling.run ensured.2).1 = false →
        (x.marshalling.run ensured.2).2.offsets = p.offsets
    else (x.marshalling.run flagged).1 = true

/-- The flag is one piece: it is there or it is not. -/
theorem writeInt32_cases {p : Parcel} (hp : Sound p) (v : BitVec 32) :
    (((writeInt32 v).run p).1 = true ∧ p.room.fits [wordNeed 4] = true ∧
      ((writeInt32 v).run p).2.writeCursor = p.writeCursor + 4) ∨
    (((writeInt32 v).run p).1 = false ∧ p.room.fits [wordNeed 4] = false ∧
      ((writeInt32 v).run p).2.writeCursor = p.writeCursor) := by
  have happ := write_appends v
  have hwrote := happ.wrote hp (started_zero p)
  have hroom := happ.room hp (started_zero p)
  have hfits : p.room.fits [wordNeed 4] = ((write v).run p).1 := by
    rw [Room.fits, show wordNeed 4 = wordNeed (Scalar.width (BitVec 32)) from rfl, hroom]
    cases ((write v).run p).1 <;> rfl
  rw [writeInt32, hfits]
  have hcur := hwrote.cursor
  cases hok : ((write v).run p).1 with
  | true =>
      rw [hok] at hcur
      rw [if_pos rfl, Scalar.length_encode] at hcur
      exact Or.inl ⟨rfl, rfl, hcur⟩
  | false =>
      rw [hok] at hcur
      exact Or.inr ⟨rfl, rfl, by simpa using hcur⟩

theorem writeParcelable_atomic_some {p : Parcel} (hp : Sound p) {x : Parcelable}
    (hx : Tracks Extends x.marshalling) :
    (((writeParcelable (some x)).run p).1 = false →
      Untouched p ((writeParcelable (some x)).run p).2) ↔ x.Atomic p := by
  have hflag := writeInt32_extends 1 p hp
  have hflagOffsets : ((writeInt32 1).run p).2.offsets = p.offsets := by
    obtain ⟨bs, hwrote, -⟩ := (Writer.scalar .int32 (1 : BitVec 32)).wrote hp
    exact hwrote.frame.offsets
  rw [Parcelable.Atomic]
  rcases writeInt32_cases hp 1 with ⟨hok, hfits, hcur⟩ | ⟨hok, hfits, hcur⟩
  · simp only [hfits, true_imp_iff]
    cases hr : x.asRemote with
    | false =>
        -- nothing is taken back: the flag stays
        rw [run_writeParcelable_plain hr, run_andThen, if_pos hok]
        have hbody := hflag.trans (hx _ hflag.sound)
        obtain ⟨n, hmoved, -⟩ := (hx _ hflag.sound).moved
        rw [hbody.untouched_iff]
        cases ((x.marshalling.run ((writeInt32 1).run p).2).1) with
        | true => simp
        | false =>
            simp only [true_imp_iff, Bool.false_eq_true, if_false, iff_false, not_and]
            intro h
            omega
    | true =>
        rw [run_writeParcelable_remote hr]
        simp only [hok, if_true, run_writeRemoteObject hr]
        have hens := hflag.trans (ensureObjectsCapacity_extends _ hflag.sound)
        cases (ensureObjectsCapacity.run ((writeInt32 1).run p).2).1 with
        | false =>
            simp only [Bool.false_eq_true, if_false, true_imp_iff, false_imp_iff, iff_true]
            exact (hens.rollback hp).untouched_iff.2
              ⟨rfl, (offsets_ensureObjectsCapacity _).trans hflagOffsets⟩
        | true =>
            have hbody := hens.trans (hx _ hens.sound)
            simp only [if_true, true_imp_iff]
            cases (x.marshalling.run (ensureObjectsCapacity.run ((writeInt32 1).run p).2).2).1 with
            | true => simp
            | false =>
                simp only [Bool.false_eq_true, if_false, true_imp_iff]
                rw [(hbody.rollback hp).untouched_iff]
                exact ⟨fun h => h.2, fun h => ⟨rfl, h⟩⟩
  · -- the flag was refused, and nothing was called after it
    simp only [hfits, Bool.false_eq_true, false_imp_iff, iff_true]
    intro _
    have hno : ¬ ((writeInt32 1).run p).1 = true := by
      rw [hok]
      exact Bool.false_ne_true
    have hstate : ((writeParcelable (some x)).run p).2 = ((writeInt32 1).run p).2 := by
      cases hr : x.asRemote with
      | false => rw [run_writeParcelable_plain hr, run_andThen, if_neg hno]
      | true =>
          rw [run_writeParcelable_remote hr]
          dsimp only
          rw [if_neg hno]
    rw [hstate]
    exact hflag.untouched_iff.2 ⟨hcur, hflagOffsets⟩

/-- **When `WriteParcelable` and `WriteStrongParcelable` are atomic on failure.** -/
theorem writeParcelable_atomic_iff {p : Parcel} (hp : Sound p) (o : Object) :
    ((((writeParcelable o.ptr).run p).1 = false →
        Untouched p ((writeParcelable o.ptr).run p).2) ↔ ∀ x ∈ o.ptr, x.Atomic p) ∧
      ((((writeStrongParcelable o.ptr).run p).1 = false →
        Untouched p ((writeStrongParcelable o.ptr).run p).2) ↔ ∀ x ∈ o.ptr, x.Atomic p) := by
  have ho := o.extends
  cases hptr : o.ptr with
  | none =>
      simp only [Option.not_mem_none, false_imp_iff, implies_true, iff_true]
      refine ⟨fun hfail => ?_, fun hfail => ?_⟩
      · have hflag := writeInt32_extends 0 p hp
        obtain ⟨bs, hwrote, -⟩ := (Writer.scalar .int32 (0 : BitVec 32)).wrote hp
        rcases writeInt32_cases hp 0 with ⟨hok, -, -⟩ | ⟨-, -, hcur⟩
        · exact absurd (hok.symm.trans hfail) (by simp)
        · exact hflag.untouched_iff.2 ⟨hcur, hwrote.frame.offsets⟩
      · exact absurd hfail (by simp [writeStrongParcelable])
  | some x =>
      have hx : Tracks Extends x.marshalling := ho x hptr
      simp only [Option.mem_some_iff, forall_eq']
      -- holding the object does not change what its `Marshalling` does
      exact ⟨writeParcelable_atomic_some hp hx,
        writeParcelable_atomic_some (x := x.setBehavior holdObject) hp hx⟩

/-- An object whose `Marshalling` writes a word before it fails. -/
def Object.failing (asRemote : Bool) : Object where
  ptr := some
    { id := 1
      asRemote
      behavior := 0
      marshalling := (Writer.scalar .int32 5).exec >>= fun _ => pure false }
  marshals x hx := by
    rw [← Option.some.inj hx]
    exact Marshals.write _ fun _ => Marshals.ret false

/-- A parcel with a word in it. -/
def oneWord : Parcel :=
  letI := Target.checked
  (Parcel.new 0 ampleHeap).step (.write (.scalar .int32 7))

omit [Target] in
theorem oneWord_sound : Sound oneWord := by
  let _ := Target.checked
  exact (steady_step (Sound.new 0 ampleHeap) id).sound

omit [Target] in
/-- The object is remote: the flag and the word that `Marshalling` wrote are taken back. -/
theorem writeParcelable_atomic_rolledBack :
    letI := Target.checked
    let o := Object.failing true
    oneWord.writeCursor = 4 ∧ ((writeParcelable o.ptr).run oneWord).1 = false ∧
      Untouched oneWord ((writeParcelable o.ptr).run oneWord).2 := by
  have hword : oneWord.writeCursor = 4 := by decide +kernel
  have hfalse : letI := Target.checked
      ((writeParcelable (Object.failing true).ptr).run oneWord).1 = false := by decide +kernel
  have hatomic : letI := Target.checked
      ∀ x ∈ (Object.failing true).ptr, x.Atomic oneWord := by
    let _ := Target.checked
    intro x hx
    rw [← Option.some.inj hx]
    intro _
    dsimp only
    rw [if_pos rfl]
    exact fun _ _ => by decide +kernel
  let _ := Target.checked
  exact ⟨hword, hfalse, (writeParcelable_atomic_iff oneWord_sound _).1.2 hatomic hfalse⟩

omit [Target] in
/-- The object is not remote: both the flag and the word stay behind. -/
theorem writeParcelable_leaves_flag :
    letI := Target.checked
    let p := Parcel.new 0 ampleHeap
    let o := Object.failing false
    ¬ (((writeParcelable o.ptr).run p).1 = false →
      Untouched p ((writeParcelable o.ptr).run p).2) := by
  let _ := Target.checked
  intro p o h
  have hfalse : ((writeParcelable o.ptr).run p).1 = false := by decide +kernel
  have hcur : ((writeParcelable o.ptr).run p).2.writeCursor = 8 := by decide +kernel
  exact absurd (hcur.symm.trans (h hfalse).data.cursor) (by decide +kernel)

end CUtils
