import CUtils.Parcel.Classes

/-!
# Objects are restored

What an object of a class writes is a list of items (`Sends`): a flag in front of what a pointer
leads to, and a flag in front of a remote object. The list is found by induction on the class, so an
object is restored wherever its items stand, with everything it leads to. As items are read back in
every session, so are objects.
-/

namespace CUtils

open StateRun ByteMemory Parcel

variable [Target]

/-- The length of no string wraps around when it is written. -/
def Leaf.Fits : (l : Leaf) → l.Elem → Prop
  | scalar _, _ => True
  | string, v => v.length < 2 ^ 32
  | string16, v => v.length < 2 ^ 32
  | vector k, v => ∀ x ∈ v, k.Short x

def Fields.Fits : (c : Fields) → c.Object → Prop
  | nil, _ => True
  | leaf l rest, o => l.Fits o.1 ∧ rest.Fits o.2
  | pointer target rest, o => (∀ v ∈ o.1, target.Fits v) ∧ rest.Fits o.2
  | strong target rest, o => target.Fits o.1 ∧ rest.Fits o.2
  | remote rest, o => rest.Fits o.2

/-- A successful `write` puts the items behind those still to be read, and `read` makes `b` of
them. -/
structure Sends {β : Type} (write : ParcelM Bool) (read : ParcelM β) (b : β) (items : List Item) :
    Prop where
  writes : ∀ {p : Parcel} {pending : List Item}, Layout p pending → (write.run p).1 = true →
    Layout (write.run p).2 (pending ++ items) ∧ (write.run p).2.readCursor = p.readCursor
  reads : ∀ {p : Parcel} {rest : List Item}, Layout p (items ++ rest) →
    (read.run p).1 = b ∧ Layout (read.run p).2 rest

namespace Sends

variable {α β : Type} {write write' : ParcelM Bool} {items items' : List Item}

theorem item {i : Item} {m : ParcelM β} {b : β} (hm : i.ReadBy m b) : Sends i.write m b [i] where
  writes h hok := ⟨h.write hok, (h.item hok).readCursor⟩
  reads h := h.read hm

theorem map {m : ParcelM α} {a : α} (f : α → β) (h : Sends write m a items) :
    Sends write (f <$> m) (f a) items where
  writes := h.writes
  reads hlayout := by
    obtain ⟨hres, hrest⟩ := h.reads hlayout
    exact ⟨congrArg f hres, hrest⟩

/-- One after the other. -/
theorem bind {m : ParcelM α} {a : α} {k : α → ParcelM β} {b : β} (h : Sends write m a items)
    (h' : Sends write' (k a) b items') :
    Sends (write.andThen write') (m >>= k) b (items ++ items') where
  writes {p pending} hlayout hok := by
    obtain ⟨hfirst, hsecond, -⟩ := andThen_true hok
    obtain ⟨hlayout₁, hcursor₁⟩ := h.writes hlayout hfirst
    obtain ⟨hlayout₂, hcursor₂⟩ := h'.writes hlayout₁ hsecond
    rw [run_andThen, if_pos hfirst]
    rw [List.append_assoc] at hlayout₂
    exact ⟨hlayout₂, hcursor₂.trans hcursor₁⟩
  reads {p rest} hlayout := by
    rw [List.append_assoc] at hlayout
    obtain ⟨hres, hrest⟩ := h.reads hlayout
    rw [run_bind, hres]
    exact h'.reads hrest

theorem both {m : ParcelM (Option α)} {k : ParcelM (Option β)} {a : α} {b : β}
    (h : Sends write m (some a) items) (h' : Sends write' k (some b) items') :
    Sends (write.andThen write') (both m k) (some (a, b)) (items ++ items') :=
  h.bind (h'.map fun w => w.map fun w => (a, w))

end Sends

/-! ## Values -/

/-- Every kind of value has a reader. -/
theorem ScalarKind.reader_isSome (k : ScalarKind) :
    k.refReader.isSome = true ∨ k.valueReader.isSome = true := by
  cases k <;> simp [refReader, valueReader]

/-- A reader with an out-parameter, checked. -/
theorem Sends.checked {α : Type} {write : ParcelM Bool} {m : ParcelM (Bool × α)} {a : α}
    {items : List Item} (h : Sends write m (true, a) items) :
    Sends write (checked m) (some a) items :=
  h.map fun r => if r.1 then some r.2 else none

theorem Leaf.sends (l : Leaf) {v : l.Elem} (h : l.Fits v) :
    ∃ items, Sends (l.writer v).exec l.read (some v) items := by
  cases l with
  | scalar k =>
      refine ⟨[.plain (.scalar k v)], ?_⟩
      cases href : k.refReader with
      | some m =>
          have hread : Leaf.read (.scalar k) = checked (m k.initial) := by
            simp only [Leaf.read, href]
          rw [hread]
          exact (Sends.item (.scalarRef href k.initial)).checked
      | none =>
          rcases k.reader_isSome with hk | hk
          · rw [href] at hk
            exact absurd hk Bool.false_ne_true
          · obtain ⟨m, hm⟩ := Option.isSome_iff_exists.1 hk
            have hread : Leaf.read (.scalar k) = some <$> m := by
              simp only [Leaf.read, href, hm]
            rw [hread]
            exact (Sends.item (.scalarValue hm)).map some
  | string =>
      have hitem := Sends.item (i := .plain (.string v h)) .stringRef
      exact ⟨_, hitem.checked⟩
  | string16 =>
      have hitem := Sends.item (i := .plain (.string16 v h)) .string16Ref
      exact ⟨_, hitem.checked⟩
  | vector k =>
      have hitem := Sends.item (i := .plain (.vector k v h)) (.vector [])
      exact ⟨_, hitem.map fun r : Bool × Option (List k.Elem) => if r.1 then r.2 else none⟩

/-! ## Pointers -/

section Pointers

variable {α : Type} {m : ParcelM Bool} {read : ParcelM (Option α)} {b : Option α}
  {items : List Item}

/-- The flag in front of an object. -/
def Item.flag (v : BitVec 32) : Item := .plain (.scalar .int32 v)

theorem Sends.flag (v : BitVec 32) : Sends (writeInt32 v) readInt32 v [.flag v] :=
  Sends.item (i := .flag v) (.scalarValue rfl)

theorem Sends.null : Sends (writeParcelable none) (readParcelable read) none [.flag 0] := by
  have hmarker : Sends (Pure.pure true) (Pure.pure none : ParcelM (Option α)) none [] :=
    ⟨fun h _ => ⟨by rwa [List.append_nil], rfl⟩, fun h => ⟨rfl, h⟩⟩
  have h := (Sends.flag 0).bind (k := fun size => if size = 0 then pure none else read) hmarker
  rwa [Prog.andThen_pure_true] at h

/-- A flag and an object. -/
theorem Sends.flagged (h : Sends m read b items) :
    Sends ((writeInt32 1).andThen m) (readParcelable read) b (.flag 1 :: items) :=
  (Sends.flag 1).bind (k := fun size => if size = 0 then pure none else read) h

theorem Sends.pointer (h : Sends m read b items) :
    Sends (writeParcelable (some (.local m))) (readParcelable read) b (.flag 1 :: items) := by
  have hrun : writeParcelable (some (.local m)) = (writeInt32 1).andThen m := by
    apply Prog.ext
    intro p
    exact run_writeParcelable_plain rfl p
  rw [hrun]
  exact h.flagged

theorem Sends.strong (h : Sends m read b items) :
    Sends (writeStrongParcelable (some (.local m))) (readStrongParcelable read) b
      (.flag 1 :: items) := by
  have hrun : writeStrongParcelable (some (.local m)) = (writeInt32 1).andThen m := by
    apply Prog.ext
    intro p
    exact run_writeParcelable_plain (o := (Parcelable.local m).setBehavior holdObject) rfl p
  rw [hrun]
  exact h.flagged

end Pointers

/-! ## Remote objects -/

/-- Where an object stands, `Unmarshalling` does what `readFlat` does. -/
theorem unmarshallingFlat_of_readFlat {p : Parcel} {flat : Flat}
    (h : (readFlat.run p).1 = (true, some flat.1)) :
    (unmarshallingFlat.run p).1 = some flat ∧
      (unmarshallingFlat.run p).2 = (readFlat.run p).2 := by
  have hlisted : (checkOffsets.run p).1 = true := congrArg Prod.fst h
  have hbuffer : ((readBufferWith flatSize false).run (checkOffsets.run p).2).1 = some flat.1 :=
    congrArg Prod.snd h
  simp only [unmarshallingFlat, readObject, readFlat, run_bind, run_pure, hlisted,
    Bool.not_true, Bool.false_eq_true, if_false, hbuffer, Option.bind_some, flat.2, dif_pos,
    and_self]

theorem Sends.flat (flat : Flat) :
    Sends (writeRemoteObject (some (FlatObject.ofBytes flat).parcelable)) unmarshallingFlat
      (some flat) [.object (.ofBytes flat)] where
  writes h hok :=
    (Sends.item (i := .object (.ofBytes flat)) .object).writes h hok
  reads h := by
    obtain ⟨hres, hrest⟩ := h.read (i := .object (.ofBytes flat)) .object
    obtain ⟨hsome, hstate⟩ := unmarshallingFlat_of_readFlat hres
    rw [hstate]
    exact ⟨hsome, hrest⟩

theorem Sends.remote (flat : Flat) :
    Sends (writeParcelable (some (FlatObject.ofBytes flat).parcelable))
      (readParcelable unmarshallingFlat) (some flat) [.flag 1, .object (.ofBytes flat)] where
  writes {p pending} h hok := by
    have hrun := run_writeParcelable_remote (o := (FlatObject.ofBytes flat).parcelable) rfl p
    dsimp only at hrun
    rw [hrun] at hok ⊢
    by_cases hflag : ((writeInt32 1).run p).1 = true
    · rw [if_pos hflag] at hok ⊢
      by_cases hobject : ((writeRemoteObject (some (FlatObject.ofBytes flat).parcelable)).run
          ((writeInt32 1).run p).2).1 = true
      · rw [if_pos hobject]
        have hboth := (Sends.flat flat).flagged.writes h
          (by rw [run_andThen, if_pos hflag]; exact hobject)
        rw [run_andThen, if_pos hflag] at hboth
        exact hboth
      · rw [if_neg hobject] at hok
        exact absurd hok Bool.false_ne_true
    · rw [if_neg hflag] at hok
      exact absurd hok Bool.false_ne_true
  reads := (Sends.flat flat).flagged.reads

/-! ## Objects -/

/-- **Every object is a list of items**, by induction on its class. -/
theorem Fields.sends (c : Fields) {o : c.Object} (h : c.Fits o) :
    ∃ items, Sends (c.marshalling o) c.unmarshalling (some o) items := by
  induction c with
  | nil => exact ⟨[], fun h _ => ⟨by rwa [List.append_nil], rfl⟩, fun h => ⟨rfl, h⟩⟩
  | leaf l rest ih =>
      obtain ⟨items, hitems⟩ := l.sends h.1
      obtain ⟨items', hrest⟩ := ih h.2
      refine ⟨items ++ items', ?_⟩
      rw [marshalling, unless_eq_andThen]
      exact hitems.both hrest
  | pointer target rest iht ih =>
      obtain ⟨items', hrest⟩ := ih h.2
      rw [marshalling, unless_eq_andThen]
      obtain ⟨v, o'⟩ := o
      cases v with
      | none => exact ⟨_, (Sends.null.map some).both hrest⟩
      | some v =>
          obtain ⟨items, hitems⟩ := iht (h.1 v rfl)
          exact ⟨_, (hitems.pointer.map some).both hrest⟩
  | strong target rest iht ih =>
      obtain ⟨items, hitems⟩ := iht h.1
      obtain ⟨items', hrest⟩ := ih h.2
      rw [marshalling, unless_eq_andThen]
      exact ⟨_, hitems.strong.both hrest⟩
  | remote rest ih =>
      obtain ⟨items', hrest⟩ := ih h
      rw [marshalling, unless_eq_andThen]
      exact ⟨_, (Sends.remote o.1).both hrest⟩

/-! ## Sessions -/

/-- An object of some class. -/
structure Instance where
  fields : Fields
  object : fields.Object
  fits : fields.Fits object

namespace Instance

def write (x : Instance) : ParcelM Bool := x.fields.marshalling x.object

def read (x : Instance) : ParcelM (Option x.fields.Object) := x.fields.unmarshalling

theorem exists_items (x : Instance) : ∃ items, Sends x.write x.read (some x.object) items :=
  x.fields.sends x.fits

noncomputable def items (x : Instance) : List Item := x.exists_items.choose

theorem sends (x : Instance) : Sends x.write x.read (some x.object) x.items :=
  x.exists_items.choose_spec

end Instance

/-- One call of a session, on a parcel and the objects written to it and not yet read: an object is
written successfully, or the next one is restored by its class. -/
inductive Exchange : Parcel × List Instance → Parcel × List Instance → Prop
  | write {p : Parcel} {pending : List Instance} {x : Instance} (hok : (x.write.run p).1 = true) :
      Exchange (p, pending) ((x.write.run p).2, pending ++ [x])
  | read {p : Parcel} {pending : List Instance} {x : Instance} :
      Exchange (p, x :: pending) ((x.read.run p).2, pending)

/-- The next object is restored, and when none is left all data has been read. -/
def Restores (p : Parcel) (pending : List Instance) : Prop :=
  (∀ x rest, pending = x :: rest → (x.read.run p).1 = some x.object) ∧
    (pending = [] → p.readCursor = p.dataSize)

/-- The items of the objects not yet read. -/
def Laid (p : Parcel) (pending : List Instance) : Prop := Layout p (pending.flatMap Instance.items)

theorem Laid.restores {p : Parcel} {pending : List Instance} (h : Laid p pending) :
    Restores p pending := by
  refine ⟨fun x rest hp => ?_, fun hp => ?_⟩
  · subst hp
    exact (x.sends.reads h).1
  · subst hp
    exact h.stand

theorem Laid.write {p : Parcel} {pending : List Instance} (h : Laid p pending) {x : Instance}
    (hok : (x.write.run p).1 = true) :
    Laid (x.write.run p).2 (pending ++ [x]) ∧ (x.write.run p).2.readCursor = p.readCursor := by
  obtain ⟨hlayout, hcursor⟩ := x.sends.writes h hok
  refine ⟨?_, hcursor⟩
  rw [Laid, List.flatMap_append, List.flatMap_singleton]
  exact hlayout

theorem Laid.exchange {z z' : Parcel × List Instance} (h : Laid z.1 z.2) (hstep : Exchange z z') :
    Laid z'.1 z'.2 := by
  cases hstep with
  | write hok => exact (h.write hok).1
  | @read p pending x => exact (x.sends.reads h).2

theorem Laid.session {z z' : Parcel × List Instance} (h : Laid z.1 z.2)
    (hrun : Relation.ReflTransGen Exchange z z') : Laid z'.1 z'.2 := by
  induction hrun with
  | refl => exact h
  | tail _ hstep ih => exact ih.exchange hstep

theorem Laid.writeAll {p : Parcel} {pending xs : List Instance} (h : Laid p pending)
    (hok : ((xs.allM Instance.write).run p).1 = true) :
    Laid ((xs.allM Instance.write).run p).2 (pending ++ xs) ∧
      ((xs.allM Instance.write).run p).2.readCursor = p.readCursor := by
  induction xs generalizing p pending with
  | nil => exact ⟨by simpa [allM_nil] using h, rfl⟩
  | cons x xs ih =>
      rw [allM_cons] at hok ⊢
      obtain ⟨hfirst, hrest, hrun⟩ := andThen_true hok
      obtain ⟨hlaid, hcursor⟩ := h.write hfirst
      obtain ⟨hlaid', hcursor'⟩ := ih hlaid hrest
      rw [hrun]
      rw [List.append_assoc] at hlaid'
      exact ⟨hlaid', hcursor'.trans hcursor⟩

/-- **Objects are restored.** In every session on a new parcel the object written first of those not
yet read is restored by its class with all it leads to, and when all have been read the read cursor
is at the end of the data; and so it is in a parcel that has received what was written. -/
theorem objects_restored (allocator : Nat) (heap : Nat → Option Mem) (maxCapacity : UInt64) :
    (∀ p pending, Relation.ReflTransGen Exchange (Parcel.fresh allocator heap maxCapacity, [])
      (p, pending) → Restores p pending) ∧
    ∀ xs p, (xs.allM Instance.write).run (Parcel.fresh allocator heap maxCapacity) = (true, p) →
      ∀ allocator' heap', (∀ i, (heap' i).isSome = true) →
        ∀ q pending, Relation.ReflTransGen Exchange (p.received allocator' heap', xs)
          (q, pending) → Restores q pending := by
  have hfresh : Laid (Parcel.fresh allocator heap maxCapacity) [] :=
    Layout.fresh allocator heap maxCapacity
  refine ⟨fun p pending hrun => (hfresh.session hrun).restores,
    fun xs p hall allocator' heap' hheap q pending hrun => ?_⟩
  have hok : ((xs.allM Instance.write).run (Parcel.fresh allocator heap maxCapacity)).1 = true := by
    rw [hall]
  obtain ⟨hlaid, hcursor⟩ := hfresh.writeAll hok
  rw [hall] at hlaid hcursor
  have hstart : p.readCursor = 0 := by
    rw [hcursor, Parcel.fresh, setMaxCapacity_storage (Parcel.new allocator heap) maxCapacity.toNat]
    rfl
  have hreceived : Laid (p.received allocator' heap') xs :=
    Layout.received hlaid hstart allocator' hheap
  exact (hreceived.session hrun).restores

/-- A number, a pointer to a string with a remote object behind it, and a null pointer. -/
def Fields.sample : Fields :=
  .leaf (.scalar .int32) (.pointer (.leaf .string (.remote .nil)) (.pointer .nil .nil))

omit [Target] in
theorem length_zeros : (List.replicate flatSize (0 : UInt8)).length = flatSize :=
  List.length_replicate

def Flat.sample : Flat := ⟨List.replicate flatSize 0, length_zeros⟩

def Fields.sampleObject : Fields.sample.Object := (7, some ([72, 105], Flat.sample, ()), none, ())

omit [Target] in
theorem Fields.sample_fits : Fields.sample.Fits Fields.sampleObject := by
  refine ⟨trivial, fun v hv => ?_, fun v hv => (Option.some_ne_none v hv.symm).elim, trivial⟩
  rw [← Option.some.inj hv]
  exact ⟨show 2 < 2 ^ 32 by decide, trivial⟩

def Instance.sample : Instance where
  fields := .sample
  object := Fields.sampleObject
  fits := Fields.sample_fits

omit [Target] in
theorem objects_restored_sample :
    letI := Target.checked
    let sent := ([Instance.sample, Instance.sample].allM Instance.write).run
      (Parcel.fresh 0 ampleHeap 0)
    sent.1 = true ∧ sent.2.offsets = [20, 68] ∧
      Restores (sent.2.received 0 ampleHeap) [Instance.sample, Instance.sample] := by
  let _ := Target.checked
  have hok : ([Instance.sample, Instance.sample].allM Instance.write).run
      (Parcel.fresh 0 ampleHeap 0) = (true, _) := Prod.ext (by decide +kernel) rfl
  exact ⟨by rw [hok], by decide +kernel,
    (objects_restored 0 ampleHeap 0).2 _ _ hok 0 ampleHeap (fun _ => rfl) _ _ .refl⟩

end CUtils
