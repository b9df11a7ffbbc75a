import CUtils.Parcel.Atomicity

/-!
# Objects kept alive

`objectHolder_` keeps the objects with `HOLD_OBJECT` alive, and `RewindWrite` cuts it to as many
entries as offsets remain, although objects without the flag have an offset and no entry. This is
right as long as an object's entry never stands behind its offset (`Holds.placed`): an offset
among the first `k` then has its entry among the first `k`.

The invariant relies on the table being cut whenever the data is. `RewindWrite` moves the data
back before it asks for the smaller table, and when that is refused it stops there:
`held_objects_kept` is about runs in which it is granted, `held_object_dropped` about one in which
it is not.
-/

namespace CUtils

open StateRun ByteMemory Parcel

/-! ## The invariant -/

structure Holds (p : Parcel) : Prop where
  /-- Recorded objects do not overlap. -/
  spaced : p.offsets.Pairwise fun a b => a + flatSize ≤ b
  below : ∀ o ∈ p.offsets, o + flatSize ≤ p.dataSize
  short : p.objectHolder.length ≤ p.objectCursor
  placed : ∀ h ∈ p.held, ∃ i j : Nat, j ≤ i ∧ p.offsets[i]? = some h.1 ∧
    p.objectHolder[j]? = some (some h.2)

theorem Holds.new (allocator : Nat) (heap : Nat → Option Mem) : Holds (Parcel.new allocator heap) :=
  ⟨List.Pairwise.nil, by simp [Parcel.new, Parcel.offsets], le_rfl, by simp [Parcel.new]⟩

theorem Holds.mem_holder {p : Parcel} (h : Holds p) {x : Nat × Nat} (hx : x ∈ p.held) :
    some x.2 ∈ p.objectHolder := by
  obtain ⟨i, j, -, -, hj⟩ := h.placed x hx
  exact List.mem_of_getElem? hj

/-- The table and the holders are the same, and the data has not become less. -/
theorem Holds.of_same {p p' : Parcel} (h : Holds p) (ho : p'.offsets = p.offsets)
    (hh : p'.objectHolder = p.objectHolder) (hheld : p'.held = p.held)
    (hsize : p.dataSize ≤ p'.dataSize) : Holds p' := by
  refine ⟨ho ▸ h.spaced, fun o hmem => ?_, ?_, ?_⟩
  · rw [ho] at hmem
    exact (h.below o hmem).trans hsize
  · rw [hh, Parcel.objectCursor, ho]
    exact h.short
  · rw [hheld, ho, hh]
    exact h.placed

theorem Wrote.holds {p p' : Parcel} {bs : List UInt8} (hw : Wrote p p' bs) (h : Holds p) :
    Holds p' :=
  h.of_same hw.frame.offsets hw.frame.objectHolder hw.frame.held (by rw [hw.size]; omega)

theorem Storage.holds {p p' : Parcel} (hs : Storage p p') (h : Holds p) : Holds p' := by
  have ho : p'.objectOffsets = p.objectOffsets := by rw [hs]
  exact h.of_same (by rw [Parcel.offsets, ho, Parcel.offsets]) (by rw [hs]) (by rw [hs])
    (by rw [hs])

theorem ensureObjectsCapacity_holds {p : Parcel} (h : Holds p) :
    Holds (ensureObjectsCapacity.run p).2 := by
  have heq := ensureObjectsCapacity_eq p
  exact h.of_same (offsets_ensureObjectsCapacity p) (by rw [heq]) (by rw [heq]) (by rw [heq])

/-! ## Rewinding -/

/-- The objects that are kept lie below the new end; none is dropped that does. -/
theorem keptObjects_spec (os : List Nat) (hle : ∀ o ∈ os, o ≤ ptrdiffMax) (n k : Nat)
    (hk : k ≤ os.length) (h0 : 0 < keptObjects os n k) :
    ∃ o, os[keptObjects os n k - 1]? = some o ∧ o + flatSize ≤ n := by
  induction k with
  | zero => simp [keptObjects] at h0
  | succ k ih =>
      have hget : os[k]? = some (os.getD k 0) := by
        rw [List.getD_eq_getElem?_getD, List.getElem?_eq_getElem (by omega)]
        rfl
      have hadd := szAdd_flatSize (hle _ (List.mem_of_getElem? hget))
      rw [keptObjects, hadd] at h0 ⊢
      by_cases hfit : os.getD k 0 + flatSize ≤ n
      · rw [if_pos hfit]
        exact ⟨_, hget, hfit⟩
      · rw [if_neg hfit] at h0 ⊢
        exact ih (by omega) h0

/-- Offsets before one that lies below `n` lie below `n`. -/
theorem Holds.below_of_le {p : Parcel} (h : Holds p) {i k n o : Nat} (hk : p.offsets[k]? = some o)
    (hn : o + flatSize ≤ n) (hi : i ≤ k) {a : Nat} (ha : p.offsets[i]? = some a) :
    a + flatSize ≤ n := by
  rcases Nat.lt_or_eq_of_le hi with hlt | rfl
  · have hik := List.pairwise_iff_getElem.1 h.spaced
    obtain ⟨hilen, rfl⟩ := List.getElem?_eq_some_iff.1 ha
    obtain ⟨hklen, rfl⟩ := List.getElem?_eq_some_iff.1 hk
    have := hik i k hilen hklen hlt
    omega
  · rw [hk] at ha
    rw [← Option.some.inj ha]
    exact hn

/-- **Cutting keeps the entries of the offsets that are kept.** -/
theorem Holds.cut {p : Parcel} (h : Holds p) {n k : Nat} (hk : k ≤ p.objectCursor)
    (hbelow : ∀ o ∈ p.offsets.take k, o + flatSize ≤ n) :
    Holds ((p.rewound n).allocated.cut k) := by
  have hlen : (p.offsets.take k).length = k := by
    rw [List.length_take]
    exact Nat.min_eq_left hk
  refine ⟨h.spaced.sublist (List.take_sublist k p.offsets), hbelow, ?_, fun x hx => ?_⟩
  · show (resizeHolder p.objectHolder k).length ≤ (p.offsets.take k).length
    rw [resizeHolder, List.length_append, List.length_take, List.length_replicate, hlen]
    omega
  · obtain ⟨hheld, hmem⟩ := List.mem_filter.1 hx
    obtain ⟨i, j, hji, hi, hj⟩ := h.placed x hheld
    -- offsets do not repeat, so the one that was kept is the one at `i`
    have hik : i < k := by
      have hmem : x.1 ∈ p.offsets.take k := of_decide_eq_true hmem
      obtain ⟨i', hi', heq⟩ := List.getElem_of_mem hmem
      rw [List.getElem_take] at heq
      obtain ⟨hilen, hival⟩ := List.getElem?_eq_some_iff.1 hi
      have hi'k : i' < k := hlen ▸ hi'
      by_contra hik
      have hlt : i' < i := by omega
      have := List.pairwise_iff_getElem.1 h.spaced i' i (by omega) hilen hlt
      rw [heq, hival] at this
      simp only [flatSize] at this
      omega
    refine ⟨i, j, hji, ?_, ?_⟩
    · show (p.offsets.take k)[i]? = some x.1
      rw [List.getElem?_take_of_lt hik, hi]
    · show (resizeHolder p.objectHolder k)[j]? = some (some x.2)
      have hjlen := (List.getElem?_eq_some_iff.1 hj).1
      rw [resizeHolder, List.getElem?_append_left (by rw [List.length_take]; omega),
        List.getElem?_take_of_lt (by omega), hj]

theorem Holds.cleared {p : Parcel} : Holds p.cleared :=
  ⟨List.Pairwise.nil, by simp [Parcel.cleared, clearObjects, Parcel.offsets], le_rfl,
    by simp [Parcel.cleared, clearObjects]⟩

/-! ## Writing objects -/

/-- The `Marshalling` of a remote object writes its own flat object and does nothing else. -/
def Parcelable.Flat (x : Parcelable) : Prop :=
  ∀ {p}, Sound p → ∃ bs, Wrote p (x.marshalling.run p).2 bs ∧
    ((x.marshalling.run p).1 = true → bs.length = flatSize)

/-- Recording the position of an object that has just been written behind all others. -/
theorem Holds.record {p : Parcel} (h : Holds p) (offset : Nat)
    (hsize : offset + flatSize ≤ p.dataSize)
    (hlast : ∀ o ∈ p.offsets, o + flatSize ≤ offset) :
    Holds ((writeObjectOffset offset).run p).2 ∧
      ((writeObjectOffset offset).run p).2.offsets = p.offsets ++ [offset] := by
  have hno : ¬ (offset > p.dataSize ∨ offset ∈ p.offsets) := by
    rintro (hgt | hmem)
    · omega
    · have := hlast offset hmem
      simp only [flatSize] at this
      omega
  rw [run_writeObjectOffset, if_neg hno]
  refine ⟨⟨?_, fun o hmem => ?_, ?_, fun x hx => ?_⟩, rfl⟩
  · exact List.pairwise_append.2 ⟨h.spaced, List.pairwise_singleton _ _, fun a ha b hb => by
      rw [List.mem_singleton.1 hb]
      exact hlast a ha⟩
  · rcases List.mem_append.1 (show o ∈ p.offsets ++ [offset] from hmem) with hmem | hmem
    · exact h.below o hmem
    · rw [List.mem_singleton.1 hmem]
      exact hsize
  · show p.objectHolder.length ≤ (p.offsets ++ [offset]).length
    have := h.short
    rw [Parcel.objectCursor] at this
    rw [List.length_append]
    omega
  · obtain ⟨i, j, hji, hi, hj⟩ := h.placed x hx
    refine ⟨i, j, hji, ?_, hj⟩
    show (p.offsets ++ [offset])[i]? = some x.1
    rw [List.getElem?_append_left (List.getElem?_eq_some_iff.1 hi).1, hi]

/-- The new entry does not stand behind the new offset. -/
theorem Holds.hold {p : Parcel} (h : Holds p) {os : List Nat} {offset : Nat}
    (hos : p.offsets = os ++ [offset]) (hshort : p.objectHolder.length ≤ os.length)
    (x : Parcelable) : Holds ((holdParcelable x offset).run p).2 := by
  refine ⟨h.spaced, h.below, ?_, fun y hy => ?_⟩
  · show (p.objectHolder ++ [some x.id]).length ≤ p.offsets.length
    rw [hos, List.length_append, List.length_append]
    exact Nat.add_le_add_right hshort 1
  · rcases List.mem_cons.1 (show y ∈ (offset, x.id) :: p.held from hy) with rfl | hy
    · refine ⟨os.length, p.objectHolder.length, hshort, ?_, ?_⟩
      · show p.offsets[os.length]? = some offset
        rw [hos, List.getElem?_concat_length]
      · show (p.objectHolder ++ [some x.id])[p.objectHolder.length]? = _
        rw [List.getElem?_concat_length]
    · obtain ⟨i, j, hji, hi, hj⟩ := h.placed y hy
      refine ⟨i, j, hji, hi, ?_⟩
      show (p.objectHolder ++ [some x.id])[j]? = some (some y.2)
      rw [List.getElem?_append_left (List.getElem?_eq_some_iff.1 hj).1, hj]

/-- The bookkeeping of objects is as before. -/
structure SameObjects (p p' : Parcel) : Prop where
  offsets : p'.offsets = p.offsets
  objectHolder : p'.objectHolder = p.objectHolder
  held : p'.held = p.held

variable [Target]

theorem writeRemoteObject_holds {p : Parcel} (hp : Sound p) (hs : Synced p) (h : Holds p)
    {x : Parcelable} (hx : x.asRemote = true → x.Flat) :
    Holds ((writeRemoteObject (some x)).run p).2 ∧
      (((writeRemoteObject (some x)).run p).1 = false →
        SameObjects p ((writeRemoteObject (some x)).run p).2) := by
  cases hr : x.asRemote with
  | false =>
      have hsame : ((writeRemoteObject (some x)).run p).2 = p := by
        simp only [writeRemoteObject, hr, Bool.not_false, if_true, run_bind, run_get, run_pure]
      rw [hsame]
      exact ⟨h, fun _ => ⟨rfl, rfl, rfl⟩⟩
  | true =>
      rw [run_writeRemoteObject hr]
      dsimp only
      have hens := ensureObjectsCapacity_holds h
      have hensEq := ensureObjectsCapacity_eq p
      have hensOffsets := offsets_ensureObjectsCapacity p
      have hensSound := (ensureObjectsCapacity_extends p hp).sound
      generalize hq : (ensureObjectsCapacity.run p).2 = q at *
      have hqHolder : q.objectHolder = p.objectHolder := by rw [hensEq]
      have hqHeld : q.held = p.held := by rw [hensEq]
      have hqSize : q.dataSize = p.dataSize := by rw [hensEq]
      have hqWritable : q.writable = p.writable := by rw [hensEq]
      cases (ensureObjectsCapacity.run p).1 with
      | false => exact ⟨hens, fun _ => ⟨hensOffsets, hqHolder, hqHeld⟩⟩
      | true =>
          obtain ⟨bs, hwrote, hlen⟩ := hx hr hensSound
          have hbody := hwrote.holds hens
          have hoff := hwrote.frame.offsets.trans hensOffsets
          have hhold := hwrote.frame.objectHolder.trans hqHolder
          cases hok : (x.marshalling.run q).1 with
          | false =>
              exact ⟨hbody, fun _ => ⟨hoff, hhold, hwrote.frame.held.trans hqHeld⟩⟩
          | true =>
              have h24 := hlen hok
              have hne : bs ≠ [] := List.ne_nil_of_length_pos (by rw [h24]; decide)
              -- the parcel can be written, so the object starts where the data ended
              have hstart := hs (hqWritable ▸ (hwrote.room hne).1)
              have hsize := hwrote.size
              obtain ⟨hrec, hrecOff⟩ := hbody.record p.writeCursor (by omega)
                (fun o ho => by
                  have := h.below o (hoff ▸ ho)
                  omega)
              refine ⟨?_, fun hfalse => absurd hfalse (by simp)⟩
              simp only [if_true]
              by_cases hflag : x.testBehavior holdObject = true
              · rw [if_pos hflag]
                refine hrec.hold hrecOff ?_ x
                rw [hoff]
                have hrecHolder :
                    ((writeObjectOffset p.writeCursor).run (x.marshalling.run q).2).2.objectHolder =
                    (x.marshalling.run q).2.objectHolder := by
                  rw [run_writeObjectOffset]
                  split <;> rfl
                rw [hrecHolder, hhold]
                exact h.short
              · rw [if_neg hflag]
                exact hrec

theorem Looked.holds {b : Bool} {p p' : Parcel} (hlook : Looked b p p') (h : Holds p) :
    Holds p' :=
  h.of_same hlook.offsets (by rw [hlook.eq]) (by rw [hlook.eq]) (by rw [hlook.eq])

omit [Target] in
theorem rewindRead_holds {p : Parcel} (h : Holds p) (n : Nat) : Holds ((rewindRead n).run p).2 := by
  simp only [rewindRead, run_bind, run_get]
  by_cases hn : n > p.dataSize
  · rw [if_pos hn]
    exact h
  · rw [if_neg hn]
    exact h.of_same rfl rfl rfl le_rfl

theorem writeInt32_holds {p : Parcel} (hp : Sound p) (h : Holds p) (v : BitVec 32) :
    Holds ((writeInt32 v).run p).2 ∧ SameObjects p ((writeInt32 v).run p).2 := by
  obtain ⟨bs, hwrote, -⟩ := (Writer.scalar .int32 v).wrote hp
  exact ⟨hwrote.holds h, hwrote.frame.offsets, hwrote.frame.objectHolder, hwrote.frame.held⟩

/-- The rollback gives up the data of the object, and there is no offset of it yet. -/
theorem writeParcelable_holds {p : Parcel} (hp : Sound p) (hs : Synced p) (h : Holds p)
    {x : Parcelable} (hx : x.asRemote = true → x.Flat)
    (hbody : x.asRemote = false → ((writeInt32 1).run p).1 = true →
      Holds (x.marshalling.run ((writeInt32 1).run p).2).2) :
    Holds ((writeParcelable (some x)).run p).2 := by
  obtain ⟨hflag, hsame⟩ := writeInt32_holds hp h 1
  have hext := writeInt32_extends 1 p hp
  cases hr : x.asRemote with
  | false =>
      rw [run_writeParcelable_plain hr, run_andThen]
      by_cases hok : ((writeInt32 1).run p).1 = true
      · rw [if_pos hok]
        exact hbody hr hok
      · rw [if_neg hok]
        exact hflag
  | true =>
      rw [run_writeParcelable_remote hr]
      dsimp only
      by_cases hok : ((writeInt32 1).run p).1 = true
      · rw [if_pos hok]
        obtain ⟨hrem, hback⟩ := writeRemoteObject_holds hext.sound (hext.steady.synced hs) hflag hx
        by_cases hok' : ((writeRemoteObject (some x)).run ((writeInt32 1).run p).2).1 = true
        · rw [if_pos hok']
          exact hrem
        · rw [if_neg hok']
          have hback := hback (Bool.eq_false_iff.2 hok')
          exact h.of_same (hback.offsets.trans hsame.offsets)
            (hback.objectHolder.trans hsame.objectHolder) (hback.held.trans hsame.held) le_rfl
      · rw [if_neg hok]
        exact hflag

/-! ## Runs -/

/-- User code in which every remote object writes its own flat object and nothing else, to any
nesting depth. -/
inductive FlatMarshals : ParcelM Bool → Prop
  | ret (b : Bool) : FlatMarshals (pure b)
  | write (w : Writer) {k : Bool → ParcelM Bool} (hk : ∀ b, FlatMarshals (k b)) :
      FlatMarshals (w.exec >>= k)
  | read {α : Type} {m : ParcelM α} {k : α → ParcelM Bool} (hm : Reader m)
      (hk : ∀ a, FlatMarshals (k a)) : FlatMarshals (m >>= k)
  | skipBytes (n : Nat) {k : Unit → ParcelM Bool} (hk : FlatMarshals (k ())) :
      FlatMarshals (skipBytes n >>= k)
  | rewindRead (n : Nat) {k : Bool → ParcelM Bool} (hk : ∀ b, FlatMarshals (k b)) :
      FlatMarshals (rewindRead n >>= k)
  | writeRemoteObject (o : Object) {k : Bool → ParcelM Bool}
      (hflat : ∀ x ∈ o.ptr, x.asRemote = true → x.Flat) (hk : ∀ b, FlatMarshals (k b)) :
      FlatMarshals (writeRemoteObject o.ptr >>= k)
  | writeParcelable (o : Object) {k : Bool → ParcelM Bool}
      (hflat : ∀ x ∈ o.ptr, x.asRemote = true → x.Flat)
      (hbody : ∀ x ∈ o.ptr, x.asRemote = false → FlatMarshals x.marshalling)
      (hk : ∀ b, FlatMarshals (k b)) : FlatMarshals (writeParcelable o.ptr >>= k)
  | writeStrongParcelable (o : Object) {k : Bool → ParcelM Bool}
      (hflat : ∀ x ∈ o.ptr, x.asRemote = true → x.Flat)
      (hbody : ∀ x ∈ o.ptr, x.asRemote = false → FlatMarshals x.marshalling)
      (hk : ∀ b, FlatMarshals (k b)) : FlatMarshals (writeStrongParcelable o.ptr >>= k)

/-- A body that keeps the holders right when it is started from a parcel in order. -/
def KeepsHolders (m : ParcelM Bool) : Prop :=
  ∀ p, Sound p → Synced p → Holds p → Holds (m.run p).2

theorem writeRemoteObject_keeps {o : Object} (hflat : ∀ x ∈ o.ptr, x.asRemote = true → x.Flat) :
    KeepsHolders (writeRemoteObject o.ptr) := by
  intro p hp hs h
  cases hptr : o.ptr with
  | none => exact h
  | some x => exact (writeRemoteObject_holds hp hs h (hflat x hptr)).1

theorem writeParcelable_keeps {o : Object} (hflat : ∀ x ∈ o.ptr, x.asRemote = true → x.Flat)
    (hbody : ∀ x ∈ o.ptr, x.asRemote = false → KeepsHolders x.marshalling) :
    KeepsHolders (writeParcelable o.ptr) := by
  intro p hp hs h
  cases hptr : o.ptr with
  | none => exact (writeInt32_holds hp h 0).1
  | some x =>
      have hext := writeInt32_extends 1 p hp
      exact writeParcelable_holds hp hs h (hflat x hptr) fun hr _ =>
        hbody x hptr hr _ hext.sound (hext.steady.synced hs) (writeInt32_holds hp h 1).1

theorem writeStrongParcelable_keeps {o : Object}
    (hflat : ∀ x ∈ o.ptr, x.asRemote = true → x.Flat)
    (hbody : ∀ x ∈ o.ptr, x.asRemote = false → KeepsHolders x.marshalling) :
    KeepsHolders (writeStrongParcelable o.ptr) := by
  intro p hp hs h
  cases hptr : o.ptr with
  | none => exact (writeInt32_holds hp h 0).1
  | some x =>
      have hstrong : o.strong.ptr = some (x.setBehavior holdObject) := by
        simp [Object.strong, hptr]
      have hkeep : KeepsHolders (writeParcelable o.strong.ptr) := by
        refine writeParcelable_keeps (fun y hy hr => ?_) fun y hy hr => ?_
        · rw [← Option.some.inj (hstrong.symm.trans hy)] at hr ⊢
          exact hflat x hptr hr
        · rw [← Option.some.inj (hstrong.symm.trans hy)] at hr ⊢
          exact hbody x hptr hr
      have := hkeep p hp hs h
      rwa [hstrong] at this

theorem FlatMarshals.keeps {m : ParcelM Bool} (hm : FlatMarshals m) : KeepsHolders m := by
  induction hm with
  | ret b => exact fun p _ _ h => h
  | write w _ ih =>
      intro p hp hs h
      obtain ⟨bs, hwrote, -⟩ := w.wrote hp
      have hext := hwrote.extended hp
      exact ih _ _ hext.sound (hext.steady.synced hs) (hwrote.holds h)
  | read hm _ ih =>
      intro p hp hs h
      have hlook := hm.reads p hp
      have hext := hlook.extended hp
      exact ih _ _ hext.sound (hext.steady.synced hs) (hlook.holds h)
  | skipBytes n _ ih =>
      intro p hp hs h
      have hlook := skipBytes_reads true n p hp
      have hext := hlook.extended hp
      exact ih _ hext.sound (hext.steady.synced hs) (hlook.holds h)
  | rewindRead n _ ih =>
      intro p hp hs h
      have hext := rewindRead_extends n p hp
      exact ih _ _ hext.sound (hext.steady.synced hs) (rewindRead_holds h n)
  | writeRemoteObject o hflat _ ih =>
      intro p hp hs h
      have hext := writeRemoteObject_extends o.extends p hp
      exact ih _ _ hext.sound (hext.steady.synced hs) (writeRemoteObject_keeps hflat p hp hs h)
  | writeParcelable o hflat _ _ ihbody ih =>
      intro p hp hs h
      have hext := writeParcelable_extends o.extends p hp
      exact ih _ _ hext.sound (hext.steady.synced hs) (writeParcelable_keeps hflat ihbody p hp hs h)
  | writeStrongParcelable o hflat _ _ ihbody ih =>
      intro p hp hs h
      have hext := writeStrongParcelable_extends o.extends p hp
      exact ih _ _ hext.sound (hext.steady.synced hs)
        (writeStrongParcelable_keeps hflat ihbody p hp hs h)

/-- The remote objects of the call write their flat object only. -/
def Object.Flat (o : Object) : Prop :=
  ∀ x ∈ o.ptr, (x.asRemote = true → x.Flat) ∧ (x.asRemote = false → FlatMarshals x.marshalling)

/-- The table that `RewindWrite` asks for when it has to shrink the offset table is granted. -/
def Op.Shrinks (p : Parcel) : Op → Prop
  | rewindWrite n =>
      let k := keptObjects p.offsets n p.objectCursor
      0 < k → k < p.objectCursor → (p.grant (szMul k binderSize)).isSome = true
  | _ => True

/-- The call records no offset of its own, and moves no end of the data by itself. -/
def Op.Flat : Op → Prop
  | writeRemoteObject o | writeParcelable o | writeStrongParcelable o => o.Flat
  | injectOffsets _ | setDataSize _ | parseFrom .. => False
  | _ => True

theorem Op.Flat.not_setsSize {op : Op} (h : op.Flat) : ¬ op.SetsSize := by
  cases op with
  | setDataSize n => exact absurd h id
  | _ => exact id

theorem rewindWrite_holds {p : Parcel} (hp : Sound p) (h : Holds p)
    (hcheck : Target.objectCheck = true) {n : Nat} (hgrant : Op.Shrinks p (.rewindWrite n)) :
    Holds ((rewindWrite n).run p).2 := by
  rw [run_rewindWrite, hcheck]
  by_cases hn : n > p.dataSize
  · rw [if_pos hn]
    exact h
  rw [if_neg hn]
  by_cases hnil : p.offsets = []
  · rw [if_pos (Or.inr (Or.inl hnil))]
    refine ⟨h.spaced, fun o ho => ?_, h.short, h.placed⟩
    change o ∈ p.offsets at ho
    rw [hnil] at ho
    exact absurd ho (by simp)
  obtain ⟨c, hc⟩ := Nat.exists_eq_succ_of_ne_zero (show p.objectCursor ≠ 0 from
    fun h0 => hnil (List.eq_nil_of_length_eq_zero h0))
  have hlen : p.offsets.length = c + 1 := hc
  have hlast : p.offsets[c]? = some (p.offsets.getD c 0) := by
    rw [List.getD_eq_getElem?_getD, List.getElem?_eq_getElem (by omega)]
    rfl
  have hadd := szAdd_flatSize (hp.offsets_le _ (List.mem_of_getElem? hlast))
  simp only [hc, Nat.succ_eq_add_one, Nat.add_sub_cancel, hadd]
  by_cases hfit : p.offsets.getD c 0 + flatSize ≤ n
  · rw [if_pos (Or.inr (Or.inr hfit))]
    refine ⟨h.spaced, fun o ho => ?_, h.short, h.placed⟩
    obtain ⟨i, hi, rfl⟩ := List.getElem_of_mem (show o ∈ p.offsets from ho)
    exact h.below_of_le hlast hfit (by omega) (List.getElem?_eq_getElem hi)
  · rw [if_neg (by simpa [hnil] using hfit)]
    have hkept := keptObjects_spec p.offsets hp.offsets_le n (c + 1) (by omega)
    have hlt : keptObjects p.offsets n (c + 1) < c + 1 := by
      rw [keptObjects, hadd, if_neg hfit]
      exact Nat.lt_succ_of_le (keptObjects_le _ _ _)
    change 0 < keptObjects p.offsets n p.objectCursor →
      keptObjects p.offsets n p.objectCursor < p.objectCursor → _ at hgrant
    simp only [hc, Nat.succ_eq_add_one] at hgrant
    generalize keptObjects p.offsets n (c + 1) = k at *
    by_cases hk : k = 0
    · rw [if_pos hk]
      exact Holds.cleared
    · obtain ⟨m, hm⟩ := Option.isSome_iff_exists.1 (hgrant (by omega) hlt)
      rw [if_neg hk, hm]
      obtain ⟨o, ho, hon⟩ := hkept (by omega)
      have hbefore : ∀ a ∈ p.offsets.take k, a + flatSize ≤ n := by
        intro a ha
        obtain ⟨i, hi, rfl⟩ := List.getElem_of_mem ha
        rw [List.length_take] at hi
        rw [List.getElem_take]
        exact h.below_of_le ho hon (by omega) (List.getElem?_eq_getElem (by omega))
      exact h.cut (by omega) hbefore

omit [Target] in
theorem flushBuffer_holds {p : Parcel} (h : Holds p) : Holds (flushBuffer.run p).2 := by
  rw [run_flushBuffer]
  cases p.allocator.isNone with
  | true => exact h
  | false =>
      cases ho : p.objectOffsets.isSome with
      | true => exact Holds.cleared
      | false =>
          cases p.data.isSome with
          | true =>
              -- there is no table, so no offset lies behind the new end
              have hnil : p.offsets = [] := by
                rw [Parcel.offsets, Option.isNone_iff_eq_none.1 (Option.isSome_eq_false_iff.1 ho)]
                rfl
              refine ⟨h.spaced, fun o hmem => ?_, h.short, h.placed⟩
              change o ∈ p.offsets at hmem
              rw [hnil] at hmem
              exact absurd hmem (by simp)
          | false => exact h

theorem holds_step {p : Parcel} (hp : Sound p) (hs : Synced p) (h : Holds p)
    (hcheck : Target.objectCheck = true) {op : Op} (hflat : op.Flat) (hgrant : op.Shrinks p) :
    Holds (p.step op) := by
  cases op with
  | write w =>
      obtain ⟨bs, hwrote, -⟩ := w.wrote hp
      exact hwrote.holds h
  | read m hm => exact (hm.reads p hp).holds h
  | writeRemoteObject o => exact writeRemoteObject_keeps (fun x hx => (hflat x hx).1) p hp hs h
  | writeParcelable o =>
      exact writeParcelable_keeps (fun x hx => (hflat x hx).1)
        (fun x hx hr => ((hflat x hx).2 hr).keeps) p hp hs h
  | writeStrongParcelable o =>
      exact writeStrongParcelable_keeps (fun x hx => (hflat x hx).1)
        (fun x hx hr => ((hflat x hx).2 hr).keeps) p hp hs h
  | injectOffsets offsets => exact absurd hflat id
  | setMaxCapacity n => exact (setMaxCapacity_storage p n.toNat).holds h
  | setDataCapacity n => exact (setDataCapacity_storage p n).holds h
  | setDataSize n => exact absurd hflat id
  | setAllocator a => exact (setAllocator_storage p a).holds h
  | skipBytes n => exact (skipBytes_reads true n p hp).holds h
  | rewindRead n => exact rewindRead_holds h n
  | rewindWrite n => exact rewindWrite_holds hp h hcheck hgrant
  | flushBuffer => exact flushBuffer_holds h
  | parseFrom data size hsize hnull => exact absurd hflat id

/-- **Held objects are kept**: in any run in which every remote object writes its own flat object
and every table that `RewindWrite` asks for is granted, a held object whose offset is in the table
has its entry in `objectHolder_`. -/
theorem held_objects_kept (hcheck : Target.objectCheck = true) (allocator : Nat)
    (heap : Nat → Option Mem) (ops : List Op)
    (h : Along (fun p op => Op.Flat op ∧ Op.Shrinks p op) Parcel.step
      (Parcel.new allocator heap) ops) :
    let p := (Parcel.new allocator heap).run ops
    ∀ x ∈ p.held, x.1 ∈ p.offsets → some x.2 ∈ p.objectHolder := by
  have hrun : Sound ((Parcel.new allocator heap).run ops) ∧
      Synced ((Parcel.new allocator heap).run ops) ∧
      Holds ((Parcel.new allocator heap).run ops) := by
    refine Along.invariant (I := fun p => Sound p ∧ Synced p ∧ Holds p) (fun p op hop hI => ?_) h
      ⟨Sound.new allocator heap, fun _ => rfl, Holds.new allocator heap⟩
    obtain ⟨hp, hs, hh⟩ := hI
    have hstep := steady_step hp hop.1.not_setsSize
    exact ⟨hstep.sound, hstep.synced hs, holds_step hp hs hh hcheck hop.1 hop.2⟩
  exact fun x hx _ => hrun.2.2.mem_holder hx

theorem Object.flat_flat (id : Nat) (behavior : BitVec 8) : (Object.flat id behavior).Flat := by
  intro x hx
  rw [← Option.some.inj hx]
  refine ⟨fun _ p hp => ?_, fun hr => absurd hr (by simp)⟩
  obtain ⟨bs, hwrote, hbytes⟩ := (Writer.buffer (some fun _ => 0) flatSize).wrote hp
  refine ⟨bs, hwrote, fun hok => ?_⟩
  rw [hbytes hok]
  rfl

omit [Target] in
theorem held_objects_kept_rewound :
    letI := Target.checked
    let ops : List Op := [.writeRemoteObject (.flat 1 holdObject), .writeRemoteObject (.flat 2 0),
      .writeRemoteObject (.flat 3 holdObject), .rewindWrite 48]
    Along (fun p op => Op.Flat op ∧ Op.Shrinks p op) Parcel.step (Parcel.new 0 ampleHeap) ops ∧
      ((Parcel.new 0 ampleHeap).run ops).held = [(0, 1)] ∧
      some 1 ∈ ((Parcel.new 0 ampleHeap).run ops).objectHolder := by
  let _ := Target.checked
  have h : Along (fun p op => Op.Flat op ∧ Op.Shrinks p op) Parcel.step (Parcel.new 0 ampleHeap)
      [.writeRemoteObject (.flat 1 holdObject), .writeRemoteObject (.flat 2 0),
        .writeRemoteObject (.flat 3 holdObject), .rewindWrite 48] :=
    ⟨⟨Object.flat_flat _ _, trivial⟩, ⟨Object.flat_flat _ _, trivial⟩, ⟨Object.flat_flat _ _, trivial⟩,
      ⟨trivial, fun _ _ => by decide +kernel⟩, trivial⟩
  exact ⟨h, by decide +kernel, held_objects_kept rfl 0 ampleHeap _ h (0, 1) (by decide +kernel)
    (by decide +kernel)⟩

omit [Target] in
/-- The third allocation fails: it is the table of the first `RewindWrite`, whose data is given up
all the same. The object written next is recorded no second time, but held, and from then on the
entries stand behind their offsets. -/
theorem held_object_dropped :
    letI := Target.checked
    let heap : Nat → Option Mem := fun i => if i = 2 then none else some fun _ => 0
    let ops : List Op := [.writeRemoteObject (.flat 1 holdObject),
      .writeRemoteObject (.flat 2 holdObject), .rewindWrite 24,
      .writeRemoteObject (.flat 3 holdObject), .writeRemoteObject (.flat 4 holdObject),
      .writeRemoteObject (.flat 5 0), .rewindWrite 72]
    let p := (Parcel.new 0 heap).run ops
    (48, 4) ∈ p.held ∧ 48 ∈ p.offsets ∧ some 4 ∉ p.objectHolder := by
  decide +kernel

end CUtils
