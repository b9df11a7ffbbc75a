import CUtils.Parcel.Reads

/-!
# Reading two parcels with the same data

Readers of two parcels with the same bytes and the same offsets return the same, also where the
blocks differ in size. The only thing that shows the size of a block is `SkipBytes`, which goes to
its end when it is asked to skip more than there is, and from there on every read fails. So the
read cursors of the two parcels are equal, or both are past the data (`ReadTwin`).

A read of no bytes is left out: it hands out `data_`, which a parcel that was never written to does
not have.
-/

namespace CUtils

open StateRun ByteMemory Parcel

/-- The same data, read from the same position. -/
structure ReadTwin (p q : Parcel) : Prop where
  left : Sound p
  right : Sound q
  size : p.dataSize = q.dataSize
  bytes : Mem.AgreeTo p.dataSize p.bytes q.bytes
  offsets : p.offsets = q.offsets
  next : p.nextObjectIdx = q.nextObjectIdx
  cursor : p.readCursor = q.readCursor ∨ p.dataSize ≤ p.readCursor ∧ q.dataSize ≤ q.readCursor

namespace ReadTwin

variable {p q : Parcel} {n : Nat}

theorem readable (h : ReadTwin p q) : p.getReadableBytes = q.getReadableBytes := by
  have hsize := h.size
  unfold Parcel.getReadableBytes
  rcases h.cursor with heq | ⟨hp, hq⟩
  · rw [hsize, heq]
  · rw [if_neg (by omega), if_neg (by omega)]

/-- Where there is something to read, it is read from the same position. -/
theorem cursor_eq (h : ReadTwin p q) (h0 : 0 < n) (hn : n ≤ p.getReadableBytes) :
    p.readCursor = q.readCursor := by
  rcases h.cursor with heq | ⟨hp, -⟩
  · exact heq
  · have hle := le_getReadableBytes.1 hn
    omega

theorem read_eq (h : ReadTwin p q) (h0 : 0 < n) (hn : n ≤ p.getReadableBytes) :
    p.bytes.read p.readCursor n = q.bytes.read q.readCursor n := by
  rw [← h.cursor_eq h0 hn]
  have hle := le_getReadableBytes.1 hn
  exact h.bytes.read_eq (by omega)

theorem handed_eq (h : ReadTwin p q) (h0 : 0 < n) (hn : n ≤ p.getReadableBytes) :
    p.handed n = q.handed n := by
  rw [Parcel.handed, Parcel.handed, if_pos (h.left.data_isSome h0 hn),
    if_pos (h.right.data_isSome h0 (h.readable ▸ hn)), h.read_eq h0 hn]

theorem readable_eq (h : ReadTwin p q) :
    p.bytes.read p.readCursor p.getReadableBytes = q.bytes.read q.readCursor q.getReadableBytes := by
  rw [← h.readable]
  by_cases h0 : p.getReadableBytes = 0
  · rw [h0]
    rfl
  · exact h.read_eq (Nat.pos_of_ne_zero h0) le_rfl

/-- Both go to the same position. -/
theorem seek (h : ReadTwin p q) {c : Nat} (hc : c ≤ ptrdiffMax) :
    ReadTwin { p with readCursor := c } { q with readCursor := c } :=
  ⟨{ h.left with read_le := hc }, { h.right with read_le := hc }, h.size, h.bytes, h.offsets, h.next,
    Or.inl rfl⟩

variable [Target]

theorem scan_eq (h : ReadTwin p q) (hcursor : p.readCursor = q.readCursor) (u : Nat) :
    p.scan u = q.scan u := by
  rw [Parcel.scan, Parcel.scan, h.offsets, h.next, hcursor]

/-- What a reader may change. -/
theorem looked {b : Bool} {p' q' : Parcel} (h : ReadTwin p q) (hp : Looked b p p')
    (hq : Looked b q q') (hnext : p'.nextObjectIdx = q'.nextObjectIdx)
    (hcursor : p'.readCursor = q'.readCursor ∨
      p.dataSize ≤ p'.readCursor ∧ q.dataSize ≤ q'.readCursor) : ReadTwin p' q' := by
  have hdata : p'.bytes = p.bytes := by rw [Parcel.bytes, hp.eq, Parcel.bytes]
  have hdata' : q'.bytes = q.bytes := by rw [Parcel.bytes, hq.eq, Parcel.bytes]
  have hsize : p'.dataSize = p.dataSize := by rw [hp.eq]
  have hsize' : q'.dataSize = q.dataSize := by rw [hq.eq]
  refine ⟨h.left.looked hp, h.right.looked hq, ?_, ?_, ?_, hnext, ?_⟩
  · rw [hsize, hsize', h.size]
  · rw [hsize, hdata, hdata']
    exact h.bytes
  · rw [hp.offsets, hq.offsets, h.offsets]
  · rw [hsize, hsize']
    exact hcursor

theorem advanced (h : ReadTwin p q) (h0 : 0 < n) (hn : n ≤ p.getReadableBytes) :
    ReadTwin (p.advanced n) (q.advanced n) := by
  refine h.looked (looked_advanced h.left true hn)
    (looked_advanced h.right true (h.readable ▸ hn)) h.next (Or.inl ?_)
  rw [Parcel.advanced, Parcel.advanced, h.cursor_eq h0 hn]

theorem consumed (h : ReadTwin p q) (h0 : 0 < n) (hn : n ≤ p.getReadableBytes) {j : Nat}
    (hj : p.scan (szAdd p.readCursor n) = some j) : ReadTwin (p.consumed n j) (q.consumed n j) := by
  have hcursor := h.cursor_eq h0 hn
  have hj' : q.scan (szAdd q.readCursor n) = some j := by
    rw [← hcursor, ← h.scan_eq hcursor]
    exact hj
  refine h.looked (looked_consumed h.left hn hj)
    (looked_consumed h.right (h.readable ▸ hn) hj') rfl (Or.inl ?_)
  show szAdd p.readCursor n = szAdd q.readCursor n
  rw [hcursor]

theorem unchecked (h : ReadTwin p q) (h0 : 0 < n) (hn : n ≤ p.getReadableBytes) :
    ReadTwin (p.consumed n p.nextObjectIdx) (q.consumed n q.nextObjectIdx) := by
  refine h.looked (looked_unchecked h.left hn) (looked_unchecked h.right (h.readable ▸ hn)) h.next
    (Or.inl ?_)
  show szAdd p.readCursor n = szAdd q.readCursor n
  rw [h.cursor_eq h0 hn]

/-- Skipping more than there is leaves both cursors past the data. -/
theorem skipped (h : ReadTwin p q) (n : Nat) : ReadTwin (p.skipped n) (q.skipped n) := by
  have hsize := h.left.size_le
  have hsize' := h.right.size_le
  refine h.looked (skipBytes_reads true n p h.left) (skipBytes_reads true n q h.right) ?_ ?_
  · rw [skipped_nextObjectIdx, skipped_nextObjectIdx, h.next]
  · rw [Parcel.skipped, Parcel.skipped, run_skipBytes, run_skipBytes]
    dsimp only
    by_cases hn : p.getReadableBytes ≥ n
    · rw [if_pos hn, if_pos (h.readable ▸ hn)]
      by_cases h0 : n = 0
      · have hread := h.left.read_le
        have hread' := h.right.read_le
        rw [h0, szAdd_of_lt (by simp only [ptrdiffMax, sizeLimit] at *; omega),
          szAdd_of_lt (by simp only [ptrdiffMax, sizeLimit] at *; omega)]
        exact h.cursor
      · exact Or.inl (by rw [h.cursor_eq (Nat.pos_of_ne_zero h0) hn])
    · have hn' : ¬ q.getReadableBytes ≥ n := h.readable ▸ hn
      rw [if_neg hn, if_neg hn']
      refine Or.inr ⟨?_, ?_⟩
      · split <;> omega
      · split <;> omega

end ReadTwin

/-! ## Readers -/

section Readers

variable [Target] {α : Type}

theorem skipBytes_couples (n : Nat) : Couples ReadTwin (skipBytes n) (skipBytes n) :=
  fun _ _ h => ⟨rfl, h.skipped n⟩

theorem read_couples [Scalar α] (v : α) : Couples ReadTwin (read v) (read v) := by
  intro p q h
  have hpos := Scalar.width_pos (α := α)
  rw [run_read, run_read, ← h.readable]
  by_cases hn : Scalar.width α ≤ p.getReadableBytes
  · have hcursor := h.cursor_eq hpos hn
    rw [if_pos hn, if_pos hn, ← hcursor, ← h.scan_eq hcursor]
    cases hj : p.scan (szAdd p.readCursor (Scalar.width α)) with
    | none => exact ⟨rfl, h.advanced hpos hn⟩
    | some j =>
        refine ⟨?_, h.consumed hpos hn hj⟩
        have hread := h.read_eq hpos hn
        rw [← hcursor] at hread
        show (true, _) = (true, _)
        rw [hread]
  · rw [if_neg hn, if_neg hn]
    exact ⟨rfl, h⟩

theorem readBufferWith_couples {length : Nat} (h0 : 0 < length) (isValidate : Bool) :
    Couples ReadTwin (readBufferWith length isValidate) (readBufferWith length isValidate) := by
  intro p q h
  rw [run_readBufferWith, run_readBufferWith, ← h.readable]
  by_cases hn : p.getReadableBytes ≥ length
  · have hcursor := h.cursor_eq h0 hn
    rw [if_pos hn, if_pos hn, ← hcursor, ← h.scan_eq hcursor]
    cases isValidate with
    | false => exact ⟨h.handed_eq h0 hn, h.unchecked h0 hn⟩
    | true =>
        simp only [if_true]
        cases hj : p.scan (szAdd p.readCursor length) with
        | none => exact ⟨rfl, h⟩
        | some j => exact ⟨h.handed_eq h0 hn, h.consumed h0 hn hj⟩
  · rw [if_neg hn, if_neg hn]
    exact ⟨rfl, h⟩

theorem readUnpadBuffer_couples {length : Nat} (h0 : 0 < length) :
    Couples ReadTwin (readUnpadBuffer length) (readUnpadBuffer length) := by
  intro p q h
  rw [run_readUnpadBuffer, run_readUnpadBuffer, ← h.readable]
  by_cases hn : p.getReadableBytes ≥ length
  · have hcursor := h.cursor_eq h0 hn
    rw [if_pos hn, if_pos hn, ← hcursor, ← h.scan_eq hcursor]
    cases hj : p.scan (szAdd p.readCursor length) with
    | none => exact ⟨rfl, h⟩
    | some j => exact ⟨h.handed_eq h0 hn, (h.consumed h0 hn hj).skipped _⟩
  · rw [if_neg hn, if_neg hn]
    exact ⟨rfl, h⟩

theorem readCString_couples : Couples ReadTwin readCString readCString := by
  intro p q h
  rw [run_readCString, run_readCString, ← h.readable_eq]
  cases hk : (p.bytes.read p.readCursor p.getReadableBytes).findIdx? (· == 0) with
  | none => exact ⟨rfl, h⟩
  | some k =>
      have hlt : k < p.getReadableBytes := by
        have hlen := (List.findIdx?_eq_some_iff_findIdx_eq.1 hk).1
        rwa [Mem.length_read] at hlen
      have hn : k + 1 ≤ p.getReadableBytes := hlt
      have hcursor := h.cursor_eq (Nat.succ_pos k) hn
      simp only [Option.elim_some]
      rw [← hcursor, ← h.scan_eq hcursor]
      cases hj : p.scan (szAdd (szAdd p.readCursor k) 1) with
      | none => exact ⟨rfl, h⟩
      | some j =>
          rw [h.left.szAdd_succ hlt] at hj
          refine ⟨?_, (h.consumed (Nat.succ_pos k) hn hj).skipped _⟩
          simp only [Option.elim_some]
          rw [h.handed_eq (Nat.succ_pos k) hn]

theorem readCharBody_couples [Scalar α] [DecidableEq α] (n : Nat) :
    Couples ReadTwin (readCharBody n : ParcelM (Option (List α))) (readCharBody n) := by
  intro p q h
  rw [run_readCharBody h.left, run_readCharBody h.right, ← h.readable]
  by_cases hn : charBody α n > n ∧ charBody α n ≤ p.getReadableBytes
  · have h0 : 0 < charBody α n := by omega
    have hcursor := h.cursor_eq h0 hn.2
    have hread := h.read_eq h0 hn.2
    rw [← hcursor] at hread
    rw [if_pos hn, if_pos hn, ← hcursor, ← h.scan_eq hcursor]
    cases hj : p.scan (szAdd p.readCursor (charBody α n)) with
    | none => exact ⟨rfl, h.advanced h0 hn.2⟩
    | some j =>
        refine ⟨?_, (h.consumed h0 hn.2 hj).skipped _⟩
        simp only [Option.elim_some]
        rw [hread]
  · rw [if_neg hn, if_neg hn]
    exact ⟨rfl, h⟩

theorem readAfterLength_couples [Scalar α] [DecidableEq α] {oldCursor : Nat}
    (hc : oldCursor ≤ ptrdiffMax) (dataLength : BitVec 32) :
    Couples ReadTwin (readAfterLength oldCursor dataLength : ParcelM (_ × Option (List α)))
      (readAfterLength oldCursor dataLength) := by
  intro p q h
  rw [run_readAfterLength, run_readAfterLength]
  by_cases hbad : dataLength.toInt < 0 ∨ dataLength.toInt ≥ int32Max
  · rw [if_pos hbad, if_pos hbad]
    exact ⟨rfl, h⟩
  · rw [if_neg hbad, if_neg hbad]
    dsimp only
    obtain ⟨heq, hbody⟩ := readCharBody_couples (α := α) dataLength.toNat p q h
    rw [← heq]
    cases ((readCharBody dataLength.toNat : ParcelM (Option (List α))).run p).1 with
    | none => exact ⟨rfl, hbody.seek hc⟩
    | some units => exact ⟨rfl, hbody⟩

theorem readChars_couples [Scalar α] [DecidableEq α] :
    Couples ReadTwin (readChars : ParcelM (_ × Option (List α))) readChars := by
  intro p q h
  rw [run_readChars, run_readChars, ← h.readable]
  by_cases hn : 4 ≤ p.getReadableBytes
  · have h0 : 0 < 4 := by decide
    have hcursor := h.cursor_eq h0 hn
    have hread := h.read_eq h0 hn
    rw [← hcursor] at hread
    rw [if_pos hn, if_pos hn, ← hcursor, ← h.scan_eq hcursor, ← hread]
    cases hj : p.scan (szAdd p.readCursor 4) with
    | none => exact ⟨rfl, h.advanced h0 hn⟩
    | some j => exact readAfterLength_couples h.left.read_le _ _ _ (h.consumed h0 hn hj)
  · rw [if_neg hn, if_neg hn]
    exact ⟨rfl, h⟩

omit [Target] in
theorem map_couples {β : Type} {m : ParcelM α} (f : α → β) (h : Couples ReadTwin m m) :
    Couples ReadTwin (f <$> m) (f <$> m) := Coupled.map f h fun _ _ _ h => h

theorem readValue_couples [Scalar α] : Couples ReadTwin (readValue : ParcelM α) readValue :=
  Coupled.bind (read_couples _) fun _ => Couples.pure _

theorem readPadded_couples (cast : BitVec 32 → α) (v : α) :
    Couples ReadTwin (readPadded cast v) (readPadded cast v) :=
  Coupled.bind (read_couples _) fun _ => Couples.pure _

omit [Target] in
theorem readElems_couples {readElem : α → ParcelM (Bool × α)}
    (h : ∀ v, Couples ReadTwin (readElem v) (readElem v)) (vs : List α) :
    Couples ReadTwin (readElems readElem vs) (readElems readElem vs) := by
  induction vs with
  | nil => exact Couples.pure _
  | cons v vs ih =>
      rw [readElems]
      refine Coupled.bind (h v) fun r => Coupled.ite (fun _ => Couples.pure _) fun _ => ?_
      exact Coupled.bind ih fun _ => Couples.pure _

theorem readVector_couples {size maxSize : Nat} {zero : α} {readElem : α → ParcelM (Bool × α)}
    (h : ∀ v, Couples ReadTwin (readElem v) (readElem v)) (val : Option (List α)) :
    Couples ReadTwin (readVector size maxSize zero readElem val)
      (readVector size maxSize zero readElem val) := by
  cases val with
  | none => exact Couples.pure _
  | some val =>
      rw [readVector]
      refine Coupled.bind readValue_couples fun len => ?_
      refine Coupled.ite (fun _ => Couples.pure _) fun _ => Coupled.get_bind fun p q ht => ?_
      rw [← ht.readable]
      suffices hrest : Couples ReadTwin _ _ from hrest p q ht
      refine Coupled.ite (fun _ => Couples.pure _) fun _ => ?_
      refine Coupled.bind (readElems_couples h _) fun r => ?_
      refine Coupled.ite (fun _ => Couples.pure _) fun _ => ?_
      exact Coupled.bind (skipBytes_couples _) fun _ => Couples.pure _

theorem readStringsVector_couples {readElem : ParcelM (List α)}
    (h : Couples ReadTwin readElem readElem) (val : Option (List (List α))) :
    Couples ReadTwin (readStringsVector readElem val) (readStringsVector readElem val) := by
  cases val with
  | none => exact Couples.pure _
  | some val =>
      rw [readStringsVector]
      refine Coupled.bind readValue_couples fun len => ?_
      refine Coupled.ite (fun _ => Couples.pure _) fun _ => Coupled.get_bind fun p q ht => ?_
      rw [← ht.readable]
      suffices hrest : Couples ReadTwin _ _ from hrest p q ht
      refine Coupled.ite (fun _ => Couples.pure _) fun _ => ?_
      exact Coupled.bind (Couples.mapM fun _ _ => h) fun _ => Couples.pure _

theorem VectorKind.read_couples (k : VectorKind) (val : Option (List k.Elem)) :
    Couples ReadTwin (k.read val) (k.read val) := by
  cases k with
  | bool | int16 =>
      refine readVector_couples (fun v => ?_) val
      exact readPadded_couples _ v
  | string | string16 => exact readStringsVector_couples (map_couples _ readChars_couples) val
  | _ =>
      refine readVector_couples (fun v => ?_) val
      exact CUtils.read_couples v

omit [Target] in
/-- The end of the object that would start at the read cursor lies in the data only if there is
something to read. -/
theorem checkOffsets_couples : Couples ReadTwin checkOffsets checkOffsets := by
  refine Coupled.get_bind fun p q h => ?_
  rcases h.cursor with heq | ⟨hp, hq⟩
  · rw [heq, h.size, h.offsets]
    split
    · exact ⟨rfl, h⟩
    · exact ⟨rfl, h⟩
  · have hadd := szAdd_flatSize h.left.read_le
    have hadd' := szAdd_flatSize h.right.read_le
    rw [if_pos (by rw [hadd, flatSize]; omega), if_pos (by rw [hadd', flatSize]; omega)]
    exact ⟨rfl, h⟩

theorem ScalarKind.valueReader_couples {k : ScalarKind} {m : ParcelM k.Elem}
    (h : k.valueReader = some m) : Couples ReadTwin m m := by
  cases k with
  | int8Unaligned | int16Unaligned | uint8Unaligned | uint16Unaligned =>
      exact absurd h (by simp [valueReader])
  | bool | int8 | int16 | uint8 | uint16 =>
      rw [← Option.some.inj h]
      exact map_couples _ readValue_couples
  | _ =>
      rw [← Option.some.inj h]
      exact readValue_couples

theorem ScalarKind.refReader_couples {k : ScalarKind} {m : k.Elem → ParcelM (Bool × k.Elem)}
    (h : k.refReader = some m) (value : k.Elem) : Couples ReadTwin (m value) (m value) := by
  cases k with
  | boolUnaligned | pointer => exact absurd h (by simp [refReader])
  | bool | int8 | int16 | uint8 | uint16 =>
      rw [← Option.some.inj h]
      exact readPadded_couples _ _
  | _ =>
      rw [← Option.some.inj h]
      exact read_couples _

end Readers

/-! ## Sequences of reads -/

variable [Target]

/-- The readers, asked for at least one byte. -/
inductive Fetches : {α : Type} → ParcelM α → Prop
  | scalarValue {k : ScalarKind} {m : ParcelM k.Elem} (h : k.valueReader = some m) : Fetches m
  | scalarRef {k : ScalarKind} {m : k.Elem → ParcelM (Bool × k.Elem)} (h : k.refReader = some m)
      (value : k.Elem) : Fetches (m value)
  | bufferWith {length : Nat} (h : 0 < length) (isValidate : Bool) :
      Fetches (readBufferWith length isValidate)
  | unpadBuffer {length : Nat} (h : 0 < length) : Fetches (readUnpadBuffer length)
  | cString : Fetches readCString
  | string : Fetches readString
  | stringRef : Fetches readStringRef
  | string16 : Fetches readString16
  | string16Ref : Fetches readString16Ref
  | string8WithLength (len : BitVec 32) : Fetches (readString8WithLength len)
  | string16WithLength (len : BitVec 32) : Fetches (readString16WithLength len)
  | vector (k : VectorKind) (val : Option (List k.Elem)) : Fetches (k.read val)
  | checkOffsets : Fetches checkOffsets

theorem Fetches.couples {α : Type} {m : ParcelM α} (h : Fetches m) : Couples ReadTwin m m := by
  cases h with
  | scalarValue h => exact ScalarKind.valueReader_couples h
  | scalarRef h value => exact ScalarKind.refReader_couples h value
  | bufferWith h isValidate => exact readBufferWith_couples h isValidate
  | unpadBuffer h => exact readUnpadBuffer_couples h
  | cString => exact readCString_couples
  | string | stringRef | string16 | string16Ref | string8WithLength | string16WithLength =>
      exact map_couples _ readChars_couples
  | vector k val => exact k.read_couples val
  | checkOffsets => exact checkOffsets_couples

/-- A program that reads: each read may depend on the results of those before it. -/
inductive Reading : {α : Type} → ParcelM α → Prop
  | ret {α : Type} (a : α) : Reading (pure a)
  | read {α β : Type} {m : ParcelM β} {k : β → ParcelM α} (hm : Fetches m)
      (hk : ∀ b, Reading (k b)) : Reading (m >>= k)
  | readObject {α β : Type} {m : ParcelM (Option β)} {k : Option β → ParcelM α} (hm : Reading m)
      (hk : ∀ b, Reading (k b)) : Reading (readObject m >>= k)
  | skipBytes {α : Type} (n : Nat) {k : Unit → ParcelM α} (hk : Reading (k ())) :
      Reading (skipBytes n >>= k)
  | rewindRead {α : Type} (n : Nat) {k : Bool → ParcelM α} (hk : ∀ b, Reading (k b)) :
      Reading (rewindRead n >>= k)

omit [Target] in
theorem ReadTwin.rewound {p q : Parcel} (h : ReadTwin p q) {c : Nat} (hc : c ≤ ptrdiffMax) :
    ReadTwin { p with readCursor := c, nextObjectIdx := 0 }
      { q with readCursor := c, nextObjectIdx := 0 } :=
  ⟨{ h.left with read_le := hc, next_le := Nat.zero_le _ },
    { h.right with read_le := hc, next_le := Nat.zero_le _ }, h.size, h.bytes, h.offsets, rfl,
    Or.inl rfl⟩

omit [Target] in
theorem rewindRead_couples (n : Nat) : Couples ReadTwin (rewindRead n) (rewindRead n) := by
  refine Coupled.get_bind fun p q h => ?_
  by_cases hn : n > p.dataSize
  · rw [if_pos hn, if_pos (h.size ▸ hn)]
    exact ⟨rfl, h⟩
  · have hn' : ¬ n > q.dataSize := h.size ▸ hn
    rw [if_neg hn, if_neg hn']
    have hsize := h.left.size_le
    have hcap := h.left.cap_le
    have hle : n ≤ ptrdiffMax := by omega
    exact ⟨rfl, h.rewound hle⟩

/-- **Reads do not tell apart parcels with the same data.** -/
theorem Reading.couples {α : Type} {m : ParcelM α} (h : Reading m) : Couples ReadTwin m m := by
  induction h with
  | ret a => exact Couples.pure a
  | read hm _ ih => exact Coupled.bind hm.couples ih
  | readObject _ _ ihm ih =>
      refine Coupled.bind (Coupled.bind checkOffsets_couples fun ok => ?_) ih
      exact Coupled.ite (fun _ => Couples.pure none) fun _ => ihm
  | skipBytes n _ ih => exact Coupled.bind (skipBytes_couples n) fun _ => ih
  | rewindRead n _ ih => exact Coupled.bind (rewindRead_couples n) ih

end CUtils
