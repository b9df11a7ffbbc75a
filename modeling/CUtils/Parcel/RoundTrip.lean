import CUtils.Parcel.ReadBack
import CUtils.Parcel.OffsetTable
import Mathlib.Logic.Relation

/-!
# What was written is read back

A session is any interleaving of successful writes of items and of reads, each with a reader that
matches the item that was written first of those not yet read (`Turn`). The invariant that carries
the proof is `Layout`: the items written and not yet read stand one behind the other from the read
cursor to the end of the data, the plain ones outside every recorded object and the objects at
recorded offsets. Writing puts an item behind them, reading takes the first away.

A parcel that has been sent is received by another with `ParseFrom` and `InjectOffsets`
(`Parcel.received`), which then has the layout of the items that were written.
-/

namespace CUtils

open StateRun ByteMemory Parcel

variable [Target]

/-! ## Writing one item -/

/-- The offsets an item adds to the table when it is written at `r`. -/
def Item.places (r : Nat) : Item → List Nat
  | plain _ => []
  | object _ => [r]

/-- The item has been written behind the data. -/
structure Appended (p p' : Parcel) (i : Item) : Prop where
  extended : Extended p p'
  readCursor : p'.readCursor = p.readCursor
  size : p'.dataSize = p.dataSize + i.bytes.length
  bytes : p'.bytes.read p.dataSize i.bytes.length = i.bytes
  offsets : p'.offsets = p.offsets ++ i.places p.dataSize

omit [Target] in
/-- What a writer has put behind the data. -/
theorem Wrote.bytes_behind {p p' : Parcel} {bs : List UInt8} (h : Wrote p p' bs) (hs : Synced p) :
    p'.bytes.read p.dataSize bs.length = bs := by
  by_cases hbs : bs = []
  · subst hbs
    rfl
  · rw [← hs (h.room hbs).1]
    exact h.bytes

theorem Plain.appended {p : Parcel} (hp : Sound p) (hs : Synced p) {x : Plain}
    (hok : ((Item.plain x).write.run p).1 = true) :
    Appended p ((Item.plain x).write.run p).2 (.plain x) := by
  obtain ⟨bs, hwrote, hbytes⟩ := x.writer.wrote hp
  have hbs := hbytes hok
  subst hbs
  exact ⟨hwrote.extended hp, hwrote.frame.readCursor, hwrote.size, hwrote.bytes_behind hs,
    hwrote.frame.offsets.trans (List.append_nil _).symm⟩

theorem FlatObject.appended {p : Parcel} (hp : Sound p) (hs : Synced p)
    (hended : ∀ o ∈ p.offsets, o + flatSize ≤ p.dataSize) {o : FlatObject}
    (hok : ((Item.object o).write.run p).1 = true) :
    Appended p ((Item.object o).write.run p).2 (.object o) := by
  have hens := ensureObjectsCapacity_extends p hp
  have hensEq := ensureObjectsCapacity_eq p
  have hensOffsets := offsets_ensureObjectsCapacity p
  rw [Item.write, run_writeRemoteObject (x := o.parcelable) rfl] at hok ⊢
  dsimp only at hok ⊢
  generalize (ensureObjectsCapacity.run p).2 = q at *
  cases hcap : (ensureObjectsCapacity.run p).1 with
  | false => exact absurd hok (by simp [hcap])
  | true =>
      cases hbody : (o.parcelable.marshalling.run q).1 with
      | false => exact absurd hok (by simp [hcap, hbody])
      | true =>
          have hwrote := o.writes hens.sound hbody
          have hne : o.flat ≠ [] := List.ne_nil_of_length_pos (by rw [o.length_flat]; decide)
          have hqSize : q.dataSize = p.dataSize := by rw [hensEq]
          -- the parcel can be written, so the object starts where the data ended
          have hstart : p.writeCursor = p.dataSize := hs (hens.writable ▸ (hwrote.room hne).1)
          have hqSynced : Synced q := fun hw => by
            rw [hqSize, ← hstart, hensEq]
          have hoff := hwrote.frame.offsets.trans hensOffsets
          have hsize := hwrote.size
          have hrec := writeObjectOffset_extends p.dataSize _ (hens.sound.wrote hwrote)
          have hext := (hens.trans (hwrote.extended hens.sound)).trans hrec
          have hfresh : ¬ (p.dataSize > (o.marshalling.run q).2.dataSize ∨
              p.dataSize ∈ (o.marshalling.run q).2.offsets) := by
            rintro (hgt | hmem)
            · omega
            · have := hended _ (hoff ▸ hmem)
              simp only [flatSize] at this
              omega
          have happ : Appended p
              ((writeObjectOffset p.dataSize).run (o.marshalling.run q).2).2 (.object o) := by
            rw [run_writeObjectOffset, if_neg hfresh] at hext ⊢
            have hqRead : q.readCursor = p.readCursor := by rw [hensEq]
            have hbytes := hwrote.bytes_behind hqSynced
            rw [hqSize] at hsize hbytes
            exact ⟨hext, hwrote.frame.readCursor.trans hqRead, hsize, hbytes,
              congrArg (· ++ [p.dataSize]) hoff⟩
          simp only [if_true, hstart]
          by_cases hhold : o.parcelable.testBehavior holdObject = true
          · rw [if_pos hhold]
            exact ⟨happ.extended.trans (holdParcelable_extends _ _ _ happ.extended.sound),
              happ.readCursor, happ.size, happ.bytes, happ.offsets⟩
          · rw [if_neg hhold]
            exact happ

/-! ## The layout of what is still to be read -/

/-- The item stands at `r`: its bytes do, and it is an object in the table or lies outside all of
them. -/
structure Item.Stands (p : Parcel) (r : Nat) (i : Item) : Prop where
  bytes : p.bytes.read r i.bytes.length = i.bytes
  plain : ∀ x, i = .plain x → x.writer.script.Accepted ∧ p.Free r (r + i.bytes.length)
  object : ∀ o, i = .object o → r ∈ p.offsets

/-- The items stand one behind the other from `r` to the end of the data. -/
def Stand (p : Parcel) : Nat → List Item → Prop
  | r, [] => r = p.dataSize
  | r, i :: is => i.Stands p r ∧ Stand p (r + i.bytes.length) is

theorem Stand.le {p : Parcel} {r : Nat} {is : List Item} (h : Stand p r is) : r ≤ p.dataSize := by
  induction is generalizing r with
  | nil => exact Nat.le_of_eq h
  | cons i is ih => exact (Nat.le_add_right _ _).trans (ih h.2)

/-- What has changed leaves the data there was alone, and new objects lie behind it. -/
structure Spared (p p' : Parcel) : Prop where
  data : Mem.AgreeTo p.dataSize p'.bytes p.bytes
  offsets : ∀ o ∈ p.offsets, o ∈ p'.offsets
  new : ∀ o ∈ p'.offsets, o ∈ p.offsets ∨ p.dataSize ≤ o

theorem Item.Stands.spared {p p' : Parcel} (h : Spared p p') {r : Nat} {i : Item}
    (hle : r + i.bytes.length ≤ p.dataSize) (hi : i.Stands p r) : i.Stands p' r where
  bytes := by rw [h.data.read_eq hle, hi.bytes]
  plain x hx := by
    obtain ⟨hacc, hfree⟩ := hi.plain x hx
    refine ⟨hacc, fun o ho => ?_⟩
    rcases h.new o ho with ho | ho
    · exact hfree o ho
    · exact Or.inr (hle.trans ho)
  object o ho := h.offsets r (hi.object o ho)

/-- Items that stand are still there when another has been put behind them. -/
theorem Stand.append {p p' : Parcel} (h : Spared p p') {r : Nat} {is : List Item} {i : Item}
    (his : Stand p r is) (hi : i.Stands p' p.dataSize)
    (hsize : p'.dataSize = p.dataSize + i.bytes.length) : Stand p' r (is ++ [i]) := by
  induction is generalizing r with
  | nil =>
      have hr : r = p.dataSize := his
      subst hr
      exact ⟨hi, hsize.symm⟩
  | cons j js ih => exact ⟨his.1.spared h his.2.le, ih his.2⟩

theorem Stand.same {p p' : Parcel} (h : Spared p p') (hsize : p'.dataSize = p.dataSize) {r : Nat}
    {is : List Item} (his : Stand p r is) : Stand p' r is := by
  induction is generalizing r with
  | nil => exact his.trans hsize.symm
  | cons j js ih => exact ⟨his.1.spared h his.2.le, ih his.2⟩

/-- The invariant: the items written and not yet read stand from the read cursor on, and the
objects lie in the data one behind the other. -/
structure Layout (p : Parcel) (pending : List Item) : Prop where
  sound : Sound p
  synced : Synced p
  ended : ∀ o ∈ p.offsets, o + flatSize ≤ p.dataSize
  spaced : p.offsets.Pairwise fun a b => a + flatSize ≤ b
  stand : Stand p p.readCursor pending

theorem Layout.appended {p p' : Parcel} {pending : List Item} (h : Layout p pending) {i : Item}
    (happ : Appended p p' i) (hacc : ∀ x, i = .plain x → x.writer.script.Accepted) :
    Layout p' (pending ++ [i]) := by
  have hoff := happ.offsets
  have hspared : Spared p p' := by
    refine ⟨happ.extended.data, fun o ho => by rw [hoff]; exact List.mem_append_left _ ho,
      fun o ho => ?_⟩
    rw [hoff] at ho
    refine (List.mem_append.1 ho).imp_right fun ho => ?_
    cases i with
    | plain x => exact absurd ho (by simp [Item.places])
    | object f => rw [List.mem_singleton.1 ho]
  refine ⟨happ.extended.sound, happ.extended.steady.synced h.synced, fun o ho => ?_, ?_, ?_⟩
  · rw [happ.size]
    rw [hoff] at ho
    rcases List.mem_append.1 ho with ho | ho
    · have := h.ended o ho
      omega
    · cases i with
      | plain x => exact absurd ho (by simp [Item.places])
      | object f =>
          rw [List.mem_singleton.1 ho, Item.bytes, f.length_flat]
  · rw [hoff]
    cases i with
    | plain x => simpa [Item.places] using h.spaced
    | object f =>
        refine List.pairwise_append.2 ⟨h.spaced, List.pairwise_singleton _ _, fun a ha b hb => ?_⟩
        rw [List.mem_singleton.1 hb]
        exact h.ended a ha
  · rw [happ.readCursor]
    refine h.stand.append hspared ⟨happ.bytes, fun x hx => ⟨hacc x hx, fun o ho => ?_⟩,
      fun f hf => ?_⟩ happ.size
    · subst hx
      rw [hoff, Item.places, List.append_nil] at ho
      exact Or.inl (h.ended o ho)
    · subst hf
      rw [hoff]
      exact List.mem_append_right _ (List.mem_singleton_self _)

theorem Layout.item {p : Parcel} {pending : List Item} (h : Layout p pending) {i : Item}
    (hok : (i.write.run p).1 = true) : Appended p (i.write.run p).2 i := by
  cases i with
  | plain x => exact Plain.appended h.sound h.synced hok
  | object o => exact FlatObject.appended h.sound h.synced h.ended hok

/-- Writing an item puts it behind those still to be read. -/
theorem Layout.write {p : Parcel} {pending : List Item} (h : Layout p pending) {i : Item}
    (hok : (i.write.run p).1 = true) : Layout (i.write.run p).2 (pending ++ [i]) := by
  refine h.appended (h.item hok) fun x hx => ?_
  subst hx
  exact Script.accepted h.sound (x.writer.exec_eq ▸ hok)

theorem Item.ReadBy.basic {x : Plain} {β : Type} {m : ParcelM β} {b : β}
    (h : Item.ReadBy (.plain x) m b) : BasicReader m := by
  cases h with
  | scalarValue h => exact .scalarValue h
  | scalarRef h old => exact .scalarRef h old
  | cString => exact .cString
  | string => exact .string
  | stringRef => exact .stringRef
  | string16 => exact .string16
  | string16Ref => exact .string16Ref
  | string8WithLength old => exact .string8WithLength old
  | string16WithLength old => exact .string16WithLength old
  | unpadBuffer => exact .unpadBuffer _
  | vector old => exact .vector _ _

theorem Item.ReadBy.reads {i : Item} {β : Type} {m : ParcelM β} {b : β} (h : i.ReadBy m b) :
    Tracks (Reads false) m := by
  cases i with
  | plain x => exact (Reader.basic h.basic).reads
  | object o =>
      cases h
      exact Tracks.bind (checkOffsets_reads false) fun _ =>
        Tracks.bind (readBufferWith_reads _ _) fun _ => Tracks.pure _

/-- An object is read where it stands. -/
theorem FlatObject.lands {p : Parcel} (hp : Sound p) {o : FlatObject}
    (hle : p.readCursor + flatSize ≤ p.dataSize) (hi : (Item.object o).Stands p p.readCursor) :
    Lands p readFlat (true, some o.flat) (p.readCursor + flatSize) := by
  have hn : flatSize ≤ p.getReadableBytes := le_getReadableBytes.2 (Or.inr hle)
  have hadd := (hp.readable_add hn).1
  have hdata := hp.data_isSome (by decide) hn
  have hbytes := hi.bytes
  rw [Item.bytes, o.length_flat] at hbytes
  have hcheck : checkOffsets.run p = (true, p) := by
    simp only [checkOffsets, run_bind, run_get]
    rw [hadd, if_neg (by omega), run_pure, List.contains_iff_mem.2 (hi.object o rfl)]
  have hbuffer := run_readBufferWith p flatSize false
  rw [if_pos hn, if_neg (by simp), Option.elim_some, Parcel.handed, if_pos hdata, hbytes] at hbuffer
  have hrun : readFlat.run p = ((true, some o.flat), p.consumed flatSize p.nextObjectIdx) := by
    simp only [readFlat, run_bind, hcheck, hbuffer, run_pure]
  rw [Lands, hrun]
  exact ⟨rfl, Or.inl hadd⟩

theorem Item.Stands.lands {p : Parcel} (hp : Sound p) {i : Item}
    (hle : p.readCursor + i.bytes.length ≤ p.dataSize) (hi : i.Stands p p.readCursor) {β : Type}
    {m : ParcelM β} {b : β} (hm : i.ReadBy m b) :
    Lands p m b (p.readCursor + i.bytes.length) := by
  cases i with
  | plain x =>
      obtain ⟨hacc, hfree⟩ := hi.plain x rfl
      have hhas : p.passed.Has p.readCursor x.writer.script.bytes :=
        sourceOf_eq_some.2 ⟨⟨hle, hfree.accepts hp⟩, hi.bytes⟩
      exact Plain.lands hm hacc (Sees.passed hp) (Or.inl rfl) hhas
  | object o =>
      cases hm
      rw [Item.bytes, o.length_flat] at hle ⊢
      exact FlatObject.lands hp hle hi

theorem Looked.spared {b : Bool} {p p' : Parcel} (h : Looked b p p') : Spared p p' := by
  have hbytes : p'.bytes = p.bytes := by rw [Parcel.bytes, h.eq, Parcel.bytes]
  refine ⟨?_, fun o ho => h.offsets.symm ▸ ho, fun o ho => Or.inl (h.offsets ▸ ho)⟩
  rw [hbytes]
  exact Mem.AgreeTo.refl _ _

/-- Reading with a matching reader returns the next item and leaves the others. -/
theorem Layout.read {p : Parcel} {i : Item} {pending : List Item} (h : Layout p (i :: pending))
    {β : Type} {m : ParcelM β} {b : β} (hm : i.ReadBy m b) :
    (m.run p).1 = b ∧ Layout (m.run p).2 pending := by
  obtain ⟨hi, hrest⟩ := h.stand
  obtain ⟨hres, hat⟩ := hi.lands h.sound hrest.le hm
  have hlooked := hm.reads p h.sound
  have hcur := hat.cursor (hlooked.dataSize ▸ hrest.le)
  have hsame := hrest.same hlooked.spared hlooked.dataSize
  refine ⟨hres, h.sound.looked hlooked, (hlooked.extended h.sound).steady.synced h.synced, ?_,
    hlooked.offsets ▸ h.spaced, hcur ▸ hsame⟩
  rw [hlooked.offsets, hlooked.dataSize]
  exact h.ended

/-! ## Sessions -/

/-- One call of a session, on a parcel and the items written to it and not yet read: an item is
written successfully, or the next one is read by a matching reader. -/
inductive Turn : Parcel × List Item → Parcel × List Item → Prop
  | write {p : Parcel} {pending : List Item} {i : Item} (hok : (i.write.run p).1 = true) :
      Turn (p, pending) ((i.write.run p).2, pending ++ [i])
  | read {p : Parcel} {pending : List Item} {i : Item} {β : Type} {m : ParcelM β} {b : β}
      (hm : i.ReadBy m b) : Turn (p, i :: pending) ((m.run p).2, pending)

/-- Every matching reader returns the next item, and when none is left all data has been read. -/
def ReadsBack (p : Parcel) (pending : List Item) : Prop :=
  (∀ i rest, pending = i :: rest → ∀ {β : Type} {m : ParcelM β} {b : β}, i.ReadBy m b →
    (m.run p).1 = b) ∧ (pending = [] → p.readCursor = p.dataSize)

theorem Layout.readsBack {p : Parcel} {pending : List Item} (h : Layout p pending) :
    ReadsBack p pending := by
  refine ⟨fun i rest hp _ _ _ hm => ?_, fun hp => ?_⟩
  · subst hp
    exact (h.read hm).1
  · subst hp
    exact h.stand

theorem Layout.turn {z z' : Parcel × List Item} (h : Layout z.1 z.2) (ht : Turn z z') :
    Layout z'.1 z'.2 := by
  cases ht with
  | write hok => exact h.write hok
  | read hm => exact (h.read hm).2

/-- **The layout is kept in every session.** -/
theorem Layout.session {z z' : Parcel × List Item} (h : Layout z.1 z.2)
    (hrun : Relation.ReflTransGen Turn z z') : Layout z'.1 z'.2 := by
  induction hrun with
  | refl => exact h
  | tail _ hturn ih => exact ih.turn hturn

/-- A new parcel, possibly with more room than by default. -/
def Parcel.fresh (allocator : Nat) (heap : Nat → Option Mem) (maxCapacity : UInt64) : Parcel :=
  ((setMaxCapacity maxCapacity.toNat).run (Parcel.new allocator heap)).2

theorem Layout.fresh (allocator : Nat) (heap : Nat → Option Mem) (maxCapacity : UInt64) :
    Layout (Parcel.fresh allocator heap maxCapacity) [] := by
  have hsteady := setMaxCapacity_steady (Sound.new allocator heap) maxCapacity
  have hstorage := setMaxCapacity_storage (Parcel.new allocator heap) maxCapacity.toNat
  have hoff : (Parcel.fresh allocator heap maxCapacity).offsets = [] := by
    rw [Parcel.fresh, Parcel.offsets, hstorage]
    rfl
  refine ⟨hsteady.sound, hsteady.synced fun _ => rfl, by simp [hoff], by simp [hoff], ?_⟩
  show (Parcel.fresh allocator heap maxCapacity).readCursor = _
  rw [Parcel.fresh, hstorage]
  rfl

theorem Layout.writeAll {p : Parcel} {pending items : List Item} (h : Layout p pending)
    (hok : ((items.allM Item.write).run p).1 = true) :
    Layout ((items.allM Item.write).run p).2 (pending ++ items) ∧
      ((items.allM Item.write).run p).2.readCursor = p.readCursor := by
  induction items generalizing p pending with
  | nil => exact ⟨by simpa [allM_nil] using h, rfl⟩
  | cons i is ih =>
      rw [allM_cons, run_andThen] at hok ⊢
      by_cases hi : (i.write.run p).1 = true
      · rw [if_pos hi] at hok ⊢
        obtain ⟨hlayout, hcursor⟩ := ih (h.write hi) hok
        rw [List.append_assoc] at hlayout
        exact ⟨hlayout, hcursor.trans (h.item hi).readCursor⟩
      · rw [if_neg hi] at hok
        exact absurd hok (by simp)

/-! ## The receiving parcel -/

/-- The parcel that takes over the data and the offsets of `p`. -/
def Parcel.received (p : Parcel) (allocator : Nat) (heap : Nat → Option Mem) : Parcel :=
  ((do
    let _ ← parseFrom p.data p.dataSize
    injectOffsets (some p.offsets)).run (Parcel.new allocator heap)).2

omit [Target] in
/-- Objects that lie one behind the other are not too many for a table. -/
theorem spaced_length {os : List Nat} {c n : Nat}
    (hspaced : os.Pairwise fun a b => a + flatSize ≤ b)
    (hfrom : ∀ o ∈ os, c ≤ o) (hto : ∀ o ∈ os, o + flatSize ≤ n) (hc : c ≤ n) :
    c + os.length * flatSize ≤ n := by
  induction os generalizing c with
  | nil => simpa using hc
  | cons o os ih =>
      rw [List.pairwise_cons] at hspaced
      have hrest := ih hspaced.2 hspaced.1 (fun x hx => hto x (by simp [hx])) (hto o (by simp))
      have ho := hfrom o (by simp)
      rw [List.length_cons, Nat.succ_mul]
      omega

/-- The data and the place where it is read are the same. -/
structure SameBuffer (p p' : Parcel) : Prop where
  data : p'.data = p.data
  size : p'.dataSize = p.dataSize
  readCursor : p'.readCursor = p.readCursor

instance : IsPreorder Parcel SameBuffer where
  refl _ := ⟨rfl, rfl, rfl⟩
  trans _ _ _ h h' :=
    ⟨h'.data.trans h.data, h'.size.trans h.size, h'.readCursor.trans h.readCursor⟩

omit [Target] in
theorem ensureObjectsCapacity_sameBuffer : Tracks SameBuffer ensureObjectsCapacity := by
  intro p
  rw [ensureObjectsCapacity_eq]
  exact ⟨rfl, rfl, rfl⟩

omit [Target] in
theorem injectOffset_sameBuffer (o : Nat) : Tracks SameBuffer (injectOffset o) := by
  refine Tracks.bind ensureObjectsCapacity_sameBuffer fun ok => ?_
  cases ok with
  | false => exact Tracks.pure _
  | true =>
      refine Tracks.bind (fun p => ?_) fun _ => Tracks.pure _
      rw [run_writeObjectOffset]
      split
      · exact ⟨rfl, rfl, rfl⟩
      · exact ⟨rfl, rfl, rfl⟩

omit [Target] in
theorem injectOffsets_sameBuffer (os : List Nat) : Tracks SameBuffer (os.forM injectOffset) := by
  induction os with
  | nil => exact Tracks.pure _
  | cons o os ih => exact Tracks.bind (injectOffset_sameBuffer o) fun _ => ih

/-- Every allocation to come succeeds. -/
def Parcel.Ample (q : Parcel) : Prop :=
  q.allocator.isSome = true ∧ ∀ i, (q.heap i).isSome = true

omit [Target] in
theorem ensureObjectsCapacity_granted {q : Parcel} (hq : q.Ample) (ht : Table q)
    (hfew : (q.objectCursor + 1) * flatSize ≤ ptrdiffMax) :
    (ensureObjectsCapacity.run q).1 = true ∧ (ensureObjectsCapacity.run q).2.Ample := by
  have hle := ht.cursor_le
  rw [run_ensureObjectsCapacity, szSub_of_le hle]
  by_cases hroom : q.objectsCapacity - q.objectCursor ≥ 1
  · rw [if_pos hroom]
    exact ⟨rfl, hq⟩
  · have hfull : q.objectsCapacity = q.objectCursor := by omega
    have hgrown : q.grownSlots * binderSize ≤ ptrdiffMax ∧
        szMul q.grownSlots binderSize = q.grownSlots * binderSize := by
      rw [Parcel.grownSlots, hfull]
      simp only [flatSize, ptrdiffMax] at hfew
      rw [szAdd_of_lt (by simp only [sizeLimit]; omega),
        szMul_of_lt (by simp only [sizeLimit]; omega)]
      simp only [binderSize, ptrdiffMax]
      exact ⟨by omega, szMul_of_lt (by simp only [sizeLimit]; omega)⟩
    obtain ⟨m, hm⟩ := Option.isSome_iff_exists.1 (hq.2 0)
    rw [if_neg hroom, if_neg (by simpa using Option.isSome_iff_ne_none.1 hq.1), Parcel.grant,
      hgrown.2, if_pos hgrown.1, hm]
    exact ⟨rfl, hq.1, fun i => hq.2 (i + 1)⟩

omit [Target] in
/-- With memory for the table, an offset in the data that is not in the table is added to it. -/
theorem injectOffset_recorded {q : Parcel} (hq : q.Ample) (ht : Table q)
    (hfew : (q.objectCursor + 1) * flatSize ≤ ptrdiffMax) {o : Nat} (ho : o ≤ q.dataSize)
    (hnew : o ∉ q.offsets) :
    ((injectOffset o).run q).2.Ample ∧ ((injectOffset o).run q).2.offsets = q.offsets ++ [o] := by
  obtain ⟨hok, hample⟩ := ensureObjectsCapacity_granted hq ht hfew
  have hoff := offsets_ensureObjectsCapacity q
  have hsize := (ensureObjectsCapacity_sameBuffer q).size
  have hrun : ((injectOffset o).run q).2 =
      ((writeObjectOffset o).run (ensureObjectsCapacity.run q).2).2 := by
    rw [injectOffset, run_bind, hok]
    rfl
  rw [hrun, run_writeObjectOffset, if_neg (by rw [hoff, hsize]; simp [hnew]; omega)]
  exact ⟨hample, congrArg (· ++ [o]) hoff⟩

omit [Target] in
theorem injectOffsets_recorded {os : List Nat} {q : Parcel} (hq : q.Ample) (ht : Table q)
    (hfew : (q.offsets ++ os).length * flatSize ≤ ptrdiffMax) (hin : ∀ o ∈ os, o ≤ q.dataSize)
    (hnew : (q.offsets ++ os).Nodup) :
    ((os.forM injectOffset).run q).2.offsets = q.offsets ++ os := by
  induction os generalizing q with
  | nil => exact (List.append_nil _).symm
  | cons o os ih =>
      have hlen : (q.objectCursor + 1) * flatSize ≤ ptrdiffMax := by
        rw [List.length_append, List.length_cons] at hfew
        refine le_trans (Nat.mul_le_mul_right _ ?_) hfew
        rw [Parcel.objectCursor]
        omega
      have hnot : o ∉ q.offsets := fun hmem =>
        (List.nodup_append.1 hnew).2.2 o hmem o (by simp) rfl
      obtain ⟨hample, hoff⟩ := injectOffset_recorded hq ht hlen (hin o (by simp)) hnot
      have hsize := (injectOffset_sameBuffer o q).size
      have happend : ((injectOffset o).run q).2.offsets ++ os = q.offsets ++ o :: os := by
        rw [hoff, List.append_assoc, List.singleton_append]
      have hrest := ih hample (injectOffset_table ht o) (by rwa [happend])
        (fun x hx => hsize ▸ hin x (by simp [hx])) (by rwa [happend])
      exact hrest.trans happend

/-- The receiving parcel has the layout of the one that was sent. -/
theorem Layout.received {p : Parcel} {items : List Item} (h : Layout p items)
    (hstart : p.readCursor = 0) (allocator : Nat) {heap : Nat → Option Mem}
    (hheap : ∀ i, (heap i).isSome = true) : Layout (p.received allocator heap) items := by
  have hp := h.sound
  have hmax := hp.size_le.trans hp.cap_le
  have hsize : ∀ o ∈ p.offsets, o ≤ p.dataSize := fun o ho =>
    (Nat.le_add_right _ _).trans (h.ended o ho)
  let q := (Parcel.new allocator heap).parsed p.data p.dataSize
  have hparse : ((parseFrom p.data p.dataSize).run (Parcel.new allocator heap)).2 = q := by
    rw [run_parseFrom, if_neg (by simp [Parcel.new]), if_neg (by simp [Parcel.new])]
  have hrun : p.received allocator heap = ((p.offsets.forM injectOffset).run q).2 := by
    rw [Parcel.received, run_bind, hparse]
    rfl
  have hq : Sound q := by
    rw [← hparse]
    refine (parseFrom_steady (Sound.new allocator heap) hmax fun hnull => ?_).sound
    have := hp.null hnull
    have := hp.size_le
    omega
  have hoff : (p.received allocator heap).offsets = p.offsets := by
    rw [hrun]
    refine injectOffsets_recorded (q := q) ⟨rfl, hheap⟩
      ((Table.new allocator heap).of_same rfl rfl ⟨[], rfl, by simp⟩) ?_ hsize ?_
    · refine le_trans ?_ hmax
      have := spaced_length h.spaced (c := 0) (by simp) h.ended (Nat.zero_le _)
      rwa [Nat.zero_add] at this
    · refine h.spaced.imp fun {a b} hab heq => ?_
      simp only [flatSize] at hab
      omega
  have hext : Extended q (p.received allocator heap) :=
    hrun ▸ injectOffsets_extends (some p.offsets) q hq
  have hsame : SameBuffer q (p.received allocator heap) :=
    hrun ▸ injectOffsets_sameBuffer p.offsets q
  have hbytes : (p.received allocator heap).bytes = p.bytes := by
    rw [Parcel.bytes, hsame.data]
    rfl
  have hspared : Spared p (p.received allocator heap) :=
    ⟨hbytes ▸ Mem.AgreeTo.refl _ _, fun o ho => hoff ▸ ho, fun o ho => Or.inl (hoff ▸ ho)⟩
  refine ⟨hext.sound, fun hw => ?_, fun o ho => ?_, hoff ▸ h.spaced, ?_⟩
  · rw [hext.writable] at hw
    exact absurd hw (by simp [q, Parcel.parsed])
  · rw [hsame.size]
    exact h.ended o (hoff ▸ ho)
  · rw [hsame.readCursor, show q.readCursor = p.readCursor from hstart.symm]
    exact h.stand.same hspared hsame.size

/-- **Round trip.** Items whose writes on a new parcel have all succeeded are read back by every
reader that matches them, each with its value and every object at a recorded offset, and when all
have been read the read cursor is at the end of the data: in the parcel itself, however the writes
and reads are interleaved, and in a parcel that has received it. -/
theorem round_trip (allocator : Nat) (heap : Nat → Option Mem) (maxCapacity : UInt64) :
    (∀ p pending, Relation.ReflTransGen Turn (Parcel.fresh allocator heap maxCapacity, [])
      (p, pending) → ReadsBack p pending) ∧
    ∀ items p, (items.allM Item.write).run (Parcel.fresh allocator heap maxCapacity) = (true, p) →
      ∀ allocator' heap', (∀ i, (heap' i).isSome = true) →
        ∀ q pending, Relation.ReflTransGen Turn (p.received allocator' heap', items) (q, pending) →
          ReadsBack q pending := by
  have hfresh := Layout.fresh allocator heap maxCapacity
  refine ⟨fun p pending hrun => (hfresh.session hrun).readsBack,
    fun items p hall allocator' heap' hheap q pending hrun => ?_⟩
  have hok : ((items.allM Item.write).run (Parcel.fresh allocator heap maxCapacity)).1 = true := by
    rw [hall]
  obtain ⟨hlayout, hcursor⟩ := hfresh.writeAll hok
  rw [hall] at hlayout hcursor
  have hstart : p.readCursor = 0 := by
    rw [hcursor, Parcel.fresh, setMaxCapacity_storage (Parcel.new allocator heap) maxCapacity.toNat]
    rfl
  exact ((hlayout.received hstart allocator' hheap).session hrun).readsBack

/-- A remote object whose `Marshalling` is one call of `WriteBuffer`. -/
def FlatObject.zeroed (id : Nat) (behavior : BitVec 8) : FlatObject where
  id := id
  behavior := behavior
  marshalling := (Writer.buffer (some fun _ => 0) flatSize).exec
  flat := List.replicate flatSize 0
  length_flat := List.length_replicate
  writes {p} hp hok := by
    obtain ⟨bs, hwrote, hbytes⟩ := (Writer.buffer (some fun _ => 0) flatSize).wrote hp
    rw [hbytes hok] at hwrote
    exact hwrote

omit [Target] in
theorem round_trip_unaligned :
    letI := Target.checked
    let items : List Item := [.plain (.scalar .int8Unaligned (-1)), .object (.zeroed 1 holdObject),
      .plain (.string [72, 0, 105] (by decide)),
      .plain (.vector .int8 [1, 2, 3] fun _ _ => trivial)]
    let sent := (items.allM Item.write).run (Parcel.fresh 0 ampleHeap 0)
    sent.1 = true ∧ sent.2.dataSize = 41 ∧ sent.2.offsets = [1] ∧
      ReadsBack (sent.2.received 0 ampleHeap) items := by
  let _ := Target.checked
  have hok : (([.plain (.scalar .int8Unaligned (-1)), .object (.zeroed 1 holdObject),
      .plain (.string [72, 0, 105] (by decide)),
      .plain (.vector .int8 [1, 2, 3] fun _ _ => trivial)] : List Item).allM Item.write).run
        (Parcel.fresh 0 ampleHeap 0) = (true, _) := Prod.ext (by decide +kernel) rfl
  exact ⟨by rw [hok], by decide +kernel, by decide +kernel,
    (round_trip 0 ampleHeap 0).2 _ _ hok 0 ampleHeap (fun _ => rfl) _ _ .refl⟩

end CUtils
