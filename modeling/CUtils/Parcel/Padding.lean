import CUtils.Parcel.Reached
import CUtils.Parcel.VectorReads

/-!
# What `WritePadBytes` touches

`WritePadBytes` rewrites the four bytes that end where the padding ends, so it starts before the
write cursor. It leaves alone what is there if four bytes have been put before, and it stays in the
block if the padding was part of what was asked for; it checks neither. Each of its callers has seen
to both (`PadRoom`): a buffer by putting at least one byte that is not padding and asking for a
multiple of four, a vector by starting with its count.

The bytes of the padding are cleared whatever they were. They need not be fresh: behind a cursor that
`RewindWrite` has moved back lies what was written there before.
-/

namespace CUtils

open StateRun ByteMemory Parcel

/-! ## The call -/

/-- In the state `q` there are four bytes up to the end of the padding, all in the block. -/
structure PadRoom (padSize : Nat) (q : Parcel) : Prop extends Stored q where
  lt : padSize < 4
  data : q.data.isSome = true
  before : 4 ≤ q.writeCursor + padSize
  fits : q.writeCursor + padSize ≤ q.dataCapacity

/-- `WritePadBytes`, called in the state `q`, stores into the block and clears the padding. -/
structure PadsOnly (padSize : Nat) (q : Parcel) : Prop where
  /-- The word that is rewritten begins at `pos`. -/
  word : ∃ pos, pos + 4 = q.writeCursor + padSize ∧ q.data.isSome = true ∧
    pos + 4 ≤ q.dataCapacity ∧
    ((writePadBytes padSize).run q).2.log = ⟨.store, pos, 4, q.dataCapacity⟩ :: q.log
  bytes : ∀ i, ((writePadBytes padSize).run q).2.bytes i =
    if q.writeCursor ≤ i ∧ i < q.writeCursor + padSize then 0 else q.bytes i

section Call

variable {q : Parcel} {n : Nat}

theorem PadRoom.lt_sizeLimit (h : PadRoom n q) : q.writeCursor + n < sizeLimit := by
  have hfits := h.fits
  have hcap := h.cap_le
  simp only [ptrdiffMax, sizeLimit] at *
  omega

theorem PadRoom.padsOnly (h : PadRoom n q) : PadsOnly n q where
  word := by
    have hlog := log_writePadBytes h.before h.lt_sizeLimit
    rw [Parcel.blockSize, if_pos h.data] at hlog
    have hpos : q.writeCursor + n - 4 + 4 = q.writeCursor + n := Nat.sub_add_cancel h.before
    exact ⟨_, hpos, h.data, by rw [hpos]; exact h.fits, hlog⟩
  bytes := bytes_writePadBytes h.data h.lt h.before h.lt_sizeLimit

end Call

/-! ## Copying -/

/-- `n` bytes have been put at the cursor. -/
structure Copied (n : Nat) (p q : Parcel) : Prop where
  data : q.data.isSome = true
  cursor : q.writeCursor = p.writeCursor + n
  capacity : q.dataCapacity = p.dataCapacity
  fits : q.writeCursor ≤ q.dataCapacity
  stored : Stored q

theorem Copied.trans {n m : Nat} {p q r : Parcel} (h : Copied n p q) (h' : Copied m q r) :
    Copied (n + m) p r where
  data := h'.data
  cursor := by rw [h'.cursor, h.cursor, Nat.add_assoc]
  capacity := h'.capacity.trans h.capacity
  fits := h'.fits
  stored := h'.stored

theorem Stored.storeBytes {p : Parcel} (hp : Stored p) (pos n : Nat) (src : Mem) :
    Stored ((storeBytes pos n src).run p).2 :=
  { hp with null := fun h => hp.null (Option.map_eq_none_iff.1 h) }

/-- A store within the block, and the cursor moved past it. -/
theorem copied_store {p : Parcel} (hp : Stored p) (hd : p.data.isSome = true) {n : Nat}
    (hn : p.writeCursor + n ≤ p.dataCapacity) (pos k : Nat) (src : Mem) :
    Copied n p ((do storeBytes pos k src; advanceWrite n).run p).2 where
  data := by simpa [CUtils.storeBytes, advanceWrite] using hd
  cursor := by
    have hcap := hp.cap_le
    exact szAdd_of_lt (by
      simp only [ptrdiffMax, sizeLimit] at *
      show p.writeCursor + n < _
      omega)
  capacity := rfl
  fits := by
    have hcap := hp.cap_le
    show szAdd p.writeCursor n ≤ p.dataCapacity
    rw [szAdd_of_lt (by simp only [ptrdiffMax, sizeLimit] at *; omega)]
    exact hn
  stored := { hp.storeBytes pos k src with }

variable [Target]

/-- `WriteDataBytes` copies what there is room for. -/
theorem copied_of_writeDataBytes {p : Parcel} (hp : Stored p) {data : Mem} {size : Nat}
    (h : ((writeDataBytes data size).run p).1 = true) :
    Copied size p ((writeDataBytes data size).run p).2 := by
  have hrun := run_writeDataBytes data size p
  by_cases hbad : p.BadDest
  · rw [hrun, if_pos hbad] at h
    cases h
  · by_cases hbig : size > p.getWritableBytes
    · rw [hrun, if_neg hbad, if_pos hbig] at h
      cases h
    · rw [hrun, if_neg hbad, if_neg hbig]
      obtain ⟨hd, hfree, -⟩ := by simpa only [Parcel.BadDest, not_or] using hbad
      rw [Bool.not_eq_true, Option.isNone_eq_false_iff] at hd
      have hroom := (le_getWritableBytes (p := p)).1 (Nat.le_of_not_lt hbig)
      have hall := (le_getWritableBytes (p := p)).1 (Nat.le_refl p.getWritableBytes)
      exact copied_store hp hd (by omega) _ _ _

/-! ## The callers, up to the call -/

def padded (contents : ParcelM Bool) (padSize : Nat) : ParcelM Bool :=
  contents.andThen do writePadBytes padSize; return true

/-- `WriteBuffer` before it calls `WritePadBytes`. -/
def bufferContents (data : Mem) (size : Nat) : ParcelM Bool :=
  if size = 0 then pure false
  else if szAdd size (getPadSize size) < size ∨ szAdd size (getPadSize size) < getPadSize size then
    pure false
  else
    (ensureWritableCapacity (szAdd size (getPadSize size))).andThen (writeDataBytes data size)

/-- `WriteBufferAddTerminator` before it calls `WritePadBytes`. -/
def terminatedContents (data : Mem) (size typeSize : Nat) : ParcelM Bool :=
  if typeSize = 0 ∨ size < typeSize then pure false
  else if szAdd size (getPadSize size) < size ∨ szAdd size (getPadSize size) < getPadSize size then
    pure false
  else
    (ensureWritableCapacity (szAdd size (getPadSize size))).andThen
      ((writeDataBytes data (size - typeSize)).andThen
        (if typeSize > 4 then pure false else writeDataBytes (fun _ => 0) typeSize))

/-- `WriteVector` and `WriteFixedAlignVector` before they call `WritePadBytes`. -/
def vectorContents {α : Type} (size : Nat) (writeElem : α → ParcelM Bool) (val : List α) :
    ParcelM Bool :=
  if val.length > 2147483647 then pure false
  else
    (writeInt32 (BitVec.ofNat 32 val.length)).andThen
      ((val.allM writeElem).andThen
        (ensureWritableCapacity (getPadSize (szMul val.length size))))

theorem writeBuffer_padded (data : Mem) (size : Nat) :
    writeBuffer (some data) size = padded (bufferContents data size) (getPadSize size) := by
  simp only [writeBuffer, padded, bufferContents, Prog.ite_andThen, Prog.false_andThen,
    Prog.andThen_assoc, unless_eq_andThen]

theorem writeBufferAddTerminator_padded (data : Mem) (size typeSize : Nat) :
    writeBufferAddTerminator (some data) size typeSize =
      padded (terminatedContents data size typeSize) (getPadSize size) := by
  simp only [writeBufferAddTerminator, padded, terminatedContents, Prog.ite_andThen,
    Prog.false_andThen, Prog.andThen_assoc, unless_eq_andThen]

omit [Target] in
theorem writeVector_padded {α : Type} (size : Nat) (writeElem : α → ParcelM Bool) (val : List α) :
    writeVector size writeElem val =
      padded (vectorContents size writeElem val) (getPadSize (szMul val.length size)) := by
  simp only [writeVector, padded, vectorContents, Prog.ite_andThen, Prog.false_andThen,
    Prog.andThen_assoc, unless_eq_andThen]

/-! ## Buffers -/

omit [Target] in
theorem Grew.stored {p p' : Parcel} (h : Grew p p') (hp : Stored p) : Stored p' where
  cap_le := h.cap_le
  null := h.null
  max_ge := by rw [h.eq]; exact hp.max_ge
  max_lt := by rw [h.eq]; exact hp.max_lt

omit [Target] in
theorem Grew.writeCursor {p p' : Parcel} (h : Grew p p') : p'.writeCursor = p.writeCursor := by
  rw [h.eq]

omit [Target] in
/-- After a request for a block and its padding, the block has been copied. -/
theorem padRoom_of_copied {p q : Parcel} (hp : Stored p) {size : Nat} (h0 : 0 < size)
    (hok : ((ensureWritableCapacity (size + padOf size)).run p).1 = true)
    (hcopied : Copied size ((ensureWritableCapacity (size + padOf size)).run p).2 q) :
    PadRoom (padOf size) q := by
  obtain ⟨hgrew, hgranted⟩ := ensureWritableCapacity_spec hp (size + padOf size)
  have hcursor := hcopied.cursor
  have hcapacity := hcopied.capacity
  have hfits := hcopied.fits
  have hcap := hcopied.stored.cap_le
  have hpad := padOf_lt size
  have hmod := padOf_add_mod size
  rw [hgrew.writeCursor] at hcursor
  -- what could be copied is no request that wrapped around
  have hroom := le_getWritableBytes.1 ((hgranted hok).2.2 (by
    simp only [ptrdiffMax, sizeLimit] at *
    omega))
  rw [hgrew.writeCursor] at hroom
  exact { hcopied.stored with
    lt := hpad, data := hcopied.data, before := by omega, fits := by omega }

omit [Target] in
/-- The guards on a size and its padding have been passed, and the request has been granted. -/
theorem granted_of_guarded {p : Parcel} {size : Nat} (h0 : 0 < size) {contents rest : ParcelM Bool}
    (hcontents : contents =
      if szAdd size (getPadSize size) < size ∨ szAdd size (getPadSize size) < getPadSize size then
        pure false
      else (ensureWritableCapacity (szAdd size (getPadSize size))).andThen rest)
    (h : (contents.run p).1 = true) :
    let granted := (ensureWritableCapacity (size + padOf size)).run p
    getPadSize size = padOf size ∧ granted.1 = true ∧ (rest.run granted.2).1 = true ∧
      (contents.run p).2 = (rest.run granted.2).2 := by
  rw [hcontents] at h ⊢
  by_cases hguard : szAdd size (getPadSize size) < size ∨
      szAdd size (getPadSize size) < getPadSize size
  · rw [if_pos hguard] at h
    cases h
  · have hlim := size_of_guard h0 hguard
    have hpad := padOf_lt size
    rw [if_neg hguard, getPadSize_eq hlim, szAdd_of_lt (by omega)] at h ⊢
    exact ⟨rfl, andThen_true h⟩

theorem bufferContents_padRoom {p : Parcel} (hp : Stored p) {data : Mem} {size : Nat}
    (h : ((bufferContents data size).run p).1 = true) :
    PadRoom (getPadSize size) ((bufferContents data size).run p).2 := by
  by_cases h0 : size = 0
  · rw [bufferContents, if_pos h0] at h
    cases h
  · have hpos := Nat.pos_of_ne_zero h0
    have hcontents : bufferContents data size = _ := if_neg h0
    obtain ⟨hpad, hok, hcopy, hrun⟩ := granted_of_guarded hpos hcontents h
    rw [hrun, hpad]
    have hq := (ensureWritableCapacity_spec hp (size + padOf size)).1.stored hp
    exact padRoom_of_copied hp hpos hok (copied_of_writeDataBytes hq hcopy)

theorem terminatedContents_padRoom {p : Parcel} (hp : Stored p) {data : Mem} {size typeSize : Nat}
    (h : ((terminatedContents data size typeSize).run p).1 = true) :
    PadRoom (getPadSize size) ((terminatedContents data size typeSize).run p).2 := by
  by_cases hargs : typeSize = 0 ∨ size < typeSize
  · rw [terminatedContents, if_pos hargs] at h
    cases h
  · have hpos : 0 < size := by omega
    have hcontents : terminatedContents data size typeSize = _ := if_neg hargs
    obtain ⟨hpad, hok, hcopies, hrun⟩ := granted_of_guarded hpos hcontents h
    obtain ⟨hcopy, hrest, hrun'⟩ := andThen_true hcopies
    rw [hrun, hrun', hpad]
    have hq := (ensureWritableCapacity_spec hp (size + padOf size)).1.stored hp
    have hfirst := copied_of_writeDataBytes hq hcopy
    by_cases h4 : typeSize > 4
    · rw [if_pos h4] at hrest
      cases hrest
    · rw [if_neg h4] at hrest ⊢
      have hboth := hfirst.trans (copied_of_writeDataBytes hfirst.stored hrest)
      rw [Nat.sub_add_cancel (by omega)] at hboth
      exact padRoom_of_copied hp hpos hok hboth

/-! ## Vectors -/

/-- Four bytes have been put. -/
structure Filled (p : Parcel) : Prop extends Stored p where
  four : 4 ≤ p.writeCursor
  fits : p.writeCursor ≤ p.dataCapacity

omit [Target] in
theorem Copied.filled {n : Nat} {p q : Parcel} (h : Copied n p q) (hp : Filled p) : Filled q :=
  { h.stored with four := by rw [h.cursor]; exact hp.four.trans (Nat.le_add_right _ _), fits := h.fits }

omit [Target] in
theorem Grew.filled {p q : Parcel} (h : Grew p q) (hp : Filled p) : Filled q :=
  { h.stored hp.toStored with
    four := by rw [h.writeCursor]; exact hp.four
    fits := by rw [h.writeCursor]; exact hp.fits.trans h.cap_ge }

omit [Target] in
theorem ensureWritableCapacity_filled (n : Nat) : Keeps Filled (ensureWritableCapacity n) :=
  fun _ hp => (ensureWritableCapacity_spec hp.toStored n).1.filled hp

omit [Target] in
/-- The room a small request has been granted. -/
theorem Filled.granted {p : Parcel} (hp : Filled p) {n : Nat} (hn : n ≤ 8)
    (hok : ((ensureWritableCapacity n).run p).1 = true) :
    ((ensureWritableCapacity n).run p).2.data.isSome = true ∧
      ((ensureWritableCapacity n).run p).2.writeCursor + n ≤
        ((ensureWritableCapacity n).run p).2.dataCapacity := by
  obtain ⟨hgrew, hgranted⟩ := ensureWritableCapacity_spec hp.toStored n
  obtain ⟨-, hd, hroom⟩ := hgranted hok
  have hcap := hp.cap_le
  have hfits := hp.fits
  have hq := (hgrew.filled hp).fits
  have hfree := le_getWritableBytes.1 (hroom (by
    simp only [ptrdiffMax, sizeLimit] at *
    omega))
  exact ⟨hd, by omega⟩

omit [Target] in
theorem write_filled {α : Type} [Scalar α] (v : α) : Keeps Filled (write v) := by
  intro p hp
  rw [write, run_unless]
  have hq := ensureWritableCapacity_filled (Scalar.width α) p hp
  split
  · rename_i hok
    obtain ⟨hd, hroom⟩ := hp.granted (Scalar.width_le) hok
    exact (copied_store hq.toStored hd hroom _ _ _).filled hq
  · exact hq

theorem writeDataBytes_filled (data : Mem) (size : Nat) : Keeps Filled (writeDataBytes data size) := by
  intro p hp
  by_cases hok : ((writeDataBytes data size).run p).1 = true
  · exact (copied_of_writeDataBytes hp.toStored hok).filled hp
  · rw [run_writeDataBytes] at hok ⊢
    by_cases hbad : p.BadDest
    · rw [if_pos hbad]
      exact hp
    · rw [if_neg hbad] at hok ⊢
      by_cases hbig : size > p.getWritableBytes
      · rw [if_pos hbig]
        exact { hp.toStored.storeBytes _ _ _ with four := hp.four, fits := hp.fits }
      · rw [if_neg hbig] at hok
        exact absurd rfl hok

theorem writeBufferAddTerminator_filled (data : Mem) (size typeSize : Nat) :
    Keeps Filled (writeBufferAddTerminator (some data) size typeSize) := by
  have hcontents : Keeps Filled (terminatedContents data size typeSize) := by
    refine Tracks.ite (fun _ => Tracks.pure _) fun _ => Tracks.ite (fun _ => Tracks.pure _) fun _ => ?_
    refine (ensureWritableCapacity_filled _).andThen ((writeDataBytes_filled _ _).andThen ?_)
    exact Tracks.ite (fun _ => Tracks.pure _) fun _ => writeDataBytes_filled _ _
  intro p hp
  rw [writeBufferAddTerminator_padded, padded, run_andThen]
  split
  · rename_i hok
    have hroom := terminatedContents_padRoom hp.toStored hok
    exact (copied_store hroom.toStored hroom.data hroom.fits _ _ _).filled (hcontents p hp)
  · exact hcontents p hp

theorem writeLengthAndChars_filled (data : Mem) (dataLength : BitVec 32) (typeSize : Nat) :
    Keeps Filled (writeLengthAndChars data dataLength typeSize) :=
  unless_tracks (write_filled _) (writeBufferAddTerminator_filled _ _ _)

/-- The public writer that writes one element. -/
def VectorKind.elemWriter : (k : VectorKind) → k.Elem → Writer
  | bool => .scalar .bool
  | int8 => .scalar .int8Unaligned
  | int16 => .scalar .int16
  | int32 => .scalar .int32
  | int64 => .scalar .int64
  | uint8 => .scalar .uint8Unaligned
  | uint16 => .scalar .uint16Unaligned
  | uint32 => .scalar .uint32
  | uint64 => .scalar .uint64
  | float => .scalar .float
  | double => .scalar .double
  | string => .string
  | string16 => .string16

def VectorKind.writeElem (k : VectorKind) (v : k.Elem) : ParcelM Bool := (k.elemWriter v).exec

theorem VectorKind.write_eq (k : VectorKind) (val : List k.Elem) :
    k.write val = writeVector k.size k.writeElem val := by
  cases k <;> rfl

omit [Target] in
theorem VectorKind.size_le (k : VectorKind) : k.size ≤ 24 := by
  cases k <;> decide

theorem VectorKind.writeElem_filled (k : VectorKind) (v : k.Elem) : Keeps Filled (k.writeElem v) := by
  cases k with
  | string =>
      exact Tracks.ite (fun _ => Tracks.pure _) fun _ => writeLengthAndChars_filled _ _ _
  | string16 =>
      exact Tracks.ite (fun _ => Tracks.pure _) fun _ => writeLengthAndChars_filled _ _ _
  | _ => exact write_filled _

/-! ### The count -/

/-- Every store so far lay in the block of that moment. After one that did not, nothing is known of
the program. -/
def Parcel.InBlock (p : Parcel) : Prop := ∀ a ∈ p.log, a.kind = .store → a.InBounds

omit [Target] in
/-- The count has been stored, into the block. -/
theorem filled_of_count {p q : Parcel} (hp : Stored p) {n : BitVec 32}
    (hok : ((writeInt32 n).run p).1 = true) (hlog : Logged ((writeInt32 n).run p).2 q)
    (hsafe : q.InBlock) : Filled ((writeInt32 n).run p).2 := by
  rw [writeInt32, write, run_unless] at hok hlog ⊢
  by_cases hens : ((ensureWritableCapacity (Scalar.width (BitVec 32))).run p).1 = true
  · rw [if_pos hens] at hlog ⊢
    obtain ⟨hgrew, hgranted⟩ := ensureWritableCapacity_spec hp (Scalar.width (BitVec 32))
    have hd := (hgranted hens).2.1
    have hgrown := hgrew.stored hp
    generalize ((ensureWritableCapacity (Scalar.width (BitVec 32))).run p).2 = r at hlog hd hgrown ⊢
    -- the store is in the log, so the cursor has not been so large that it wrapped around
    have hin : Access.InBounds ⟨.store, r.writeCursor, Scalar.width (BitVec 32), r.blockSize⟩ :=
      hsafe _ (hlog.subset (List.mem_cons_self ..)) rfl
    rw [Access.InBounds, Parcel.blockSize, if_pos hd] at hin
    have hroom := hin.resolve_left (Nat.ne_of_gt (Scalar.width_pos (α := BitVec 32)))
    have hcopied := copied_store hgrown hd hroom r.writeCursor (Scalar.width (BitVec 32))
      (Mem.ofList (Scalar.encode n))
    exact
      { hcopied.stored with
        four := (Nat.le_add_left 4 r.writeCursor).trans hcopied.cursor.ge
        fits := hcopied.fits }
  · rw [if_neg hens] at hok
    cases hok

theorem vectorContents_padRoom {p : Parcel} (hp : Stored p) (k : VectorKind) {val : List k.Elem}
    (h : ((vectorContents k.size k.writeElem val).run p).1 = true)
    (hsafe : ((vectorContents k.size k.writeElem val).run p).2.InBlock) :
    PadRoom (getPadSize (szMul val.length k.size))
      ((vectorContents k.size k.writeElem val).run p).2 := by
  rw [vectorContents] at h hsafe ⊢
  by_cases hlong : val.length > 2147483647
  · rw [if_pos hlong] at h
    cases h
  · rw [if_neg hlong] at h hsafe ⊢
    have hmul : val.length * k.size ≤ 2147483647 * 24 :=
      Nat.mul_le_mul (Nat.le_of_not_lt hlong) k.size_le
    rw [szMul_of_lt (by simp only [sizeLimit]; omega),
      getPadSize_eq (by simp only [sizeLimit]; omega)] at h hsafe ⊢
    obtain ⟨hcount, hrest, hrun⟩ := andThen_true h
    obtain ⟨-, hpad, hrun'⟩ := andThen_true hrest
    rw [hrun, hrun'] at hsafe ⊢
    have hfilled : Filled _ := filled_of_count hp hcount (trans_of Logged
      (Tracks.allM (fun v => (k.elemWriter v).tracks logged_respects.toRespectsData) val _)
      (ensureWritableCapacity_logged _ _)) hsafe
    have helems := Tracks.allM k.writeElem_filled val _ hfilled
    obtain ⟨hd, hroom⟩ := helems.granted ((padOf_lt _).le.trans (by decide)) hpad
    have hq := ensureWritableCapacity_filled (padOf (val.length * k.size)) _ helems
    exact { hq.toStored with
      lt := padOf_lt _, data := hd, before := hq.four.trans (Nat.le_add_right _ _), fits := hroom }

/-! ## Every call -/

/-- A function that calls `WritePadBytes` itself, with its arguments. -/
inductive PadCaller
  | buffer (data : Mem) (size : Nat)
  | bufferAddTerminator (data : Mem) (size typeSize : Nat)
  | vector (k : VectorKind) (val : List k.Elem)

namespace PadCaller

def exec : PadCaller → ParcelM Bool
  | buffer data size => writeBuffer (some data) size
  | bufferAddTerminator data size typeSize => writeBufferAddTerminator (some data) size typeSize
  | vector k val => k.write val

/-- The function before it calls `WritePadBytes`. -/
def contents : PadCaller → ParcelM Bool
  | buffer data size => bufferContents data size
  | bufferAddTerminator data size typeSize => terminatedContents data size typeSize
  | vector k val => vectorContents k.size k.writeElem val

/-- The argument of the call. -/
def padSize : PadCaller → Nat
  | buffer _ size | bufferAddTerminator _ size _ => getPadSize size
  | vector k val => getPadSize (szMul val.length k.size)

theorem exec_eq (c : PadCaller) : c.exec = padded c.contents c.padSize := by
  cases c with
  | buffer data size => exact writeBuffer_padded data size
  | bufferAddTerminator data size typeSize => exact writeBufferAddTerminator_padded data size typeSize
  | vector k val => exact (k.write_eq val).trans (writeVector_padded _ _ _)

end PadCaller

/-- The length of an element that is a string, and the call that writes its characters. -/
def VectorKind.chars : (k : VectorKind) → k.Elem → Option (BitVec 32 × PadCaller)
  | string => fun v =>
      let dataLength := BitVec.ofNat 32 v.length
      some (dataLength, .bufferAddTerminator (Mem.ofList v) ((dataLength.toNat + 1) * 1) 1)
  | string16 => fun v =>
      let dataLength := BitVec.ofNat 32 v.length
      some (dataLength,
        .bufferAddTerminator (Mem.ofList (charBytes v)) ((dataLength.toNat + 1) * 2) 2)
  | _ => fun _ => none

/-- `PadCall c p n q`: called in the state `p`, the function comes to call `WritePadBytes(n)` in the
state `q`. -/
inductive PadCall : PadCaller → Parcel → Nat → Parcel → Prop
  | own (c : PadCaller) {p : Parcel} (h : (c.contents.run p).1 = true) :
      PadCall c p c.padSize (c.contents.run p).2
  /-- The call is made for a string `v` of a vector, behind the count, the strings before it and its
  length. -/
  | element {k : VectorKind} {pre post : List k.Elem} {v : k.Elem} {dataLength : BitVec 32}
      {c : PadCaller} (hchars : k.chars v = some (dataLength, c)) {p q : Parcel} {n : Nat}
      (hbefore : (((writeInt32 (BitVec.ofNat 32 (pre ++ v :: post).length)).andThen
        ((pre.allM k.writeElem).andThen (write dataLength))).run p).1 = true)
      (h : PadCall c (((writeInt32 (BitVec.ofNat 32 (pre ++ v :: post).length)).andThen
        ((pre.allM k.writeElem).andThen (write dataLength))).run p).2 n q) :
      PadCall (.vector k (pre ++ v :: post)) p n q

theorem Writer.reached (w : Writer) : Keeps Parcel.Reached w.exec := fun _ h => h.step (.write w)

theorem PadCall.padRoom {c : PadCaller} {p q : Parcel} {n : Nat} (h : PadCall c p n q)
    (hp : p.Reached) (hsafe : q.InBlock) : PadRoom n q := by
  induction h with
  | own c hok =>
      cases c with
      | buffer data size => exact bufferContents_padRoom hp.equipped.toStored hok
      | bufferAddTerminator data size typeSize =>
          exact terminatedContents_padRoom hp.equipped.toStored hok
      | vector k val => exact vectorContents_padRoom hp.equipped.toStored k hok hsafe
  | @element k pre post v dataLength c hchars p q n hbefore h ih =>
      have hcount : Keeps Parcel.Reached (writeInt32 (BitVec.ofNat 32 (pre ++ v :: post).length)) :=
        (Writer.scalar .int32 _).reached
      have hlength : Keeps Parcel.Reached (write dataLength) :=
        (Writer.scalar .int32 dataLength).reached
      have helems : Keeps Parcel.Reached (pre.allM k.writeElem) :=
        Tracks.allM (fun v => (k.elemWriter v).reached) pre
      exact ih (hcount.andThen (helems.andThen hlength) p hp) hsafe

theorem Writer.sound (w : Writer) : Keeps Sound w.exec := fun _ hp =>
  have ⟨_, hwrote, _⟩ := w.wrote hp
  hp.wrote hwrote

/-- While the data has not been moved past the write cursor, every store is in the block. -/
theorem PadCall.inBlock {c : PadCaller} {p q : Parcel} {n : Nat} (h : PadCall c p n q)
    (hp : Sound p) : q.InBlock := by
  induction h with
  | @own c p hok =>
      have hsound : Sound (c.exec.run p).2 := by
        cases c with
        | buffer data size => exact (Writer.buffer (some data) size).sound p hp
        | bufferAddTerminator data size typeSize =>
            exact (Writer.bufferAddTerminator (some data) size typeSize).sound p hp
        | vector k val => exact (Writer.vector k val).sound p hp
      rw [c.exec_eq, padded, run_andThen, if_pos hok] at hsound
      exact fun a ha hk => hsound.log_ok a (List.mem_cons_of_mem _ ha) (by rw [hk]; decide)
  | @element k pre post v dataLength c hchars p q n hbefore h ih =>
      have hcount : Keeps Sound (writeInt32 (BitVec.ofNat 32 (pre ++ v :: post).length)) :=
        (Writer.scalar .int32 _).sound
      have hlength : Keeps Sound (write dataLength) := (Writer.scalar .int32 dataLength).sound
      have helems : Keeps Sound (pre.allM k.writeElem) :=
        Tracks.allM (fun v => (k.elemWriter v).sound) pre
      exact ih (hcount.andThen (helems.andThen hlength) p hp)

/-- **`WritePadBytes` touches only the padding**, in every call of it that `WriteBuffer`,
`WriteBufferAddTerminator`, `WriteVector` and `WriteFixedAlignVector` can make, from whatever state
they are called in. -/
theorem writePadBytes_padsOnly {c : PadCaller} {p q : Parcel} {n : Nat} (h : PadCall c p n q)
    (hp : p.Reached) (hsafe : q.InBlock) : PadsOnly n q :=
  (h.padRoom hp hsafe).padsOnly

omit [Target] in
/-- A vector of one byte behind one byte, where eight bytes have been written before. -/
theorem writePadBytes_padsOnly_stale :
    letI := Target.checked
    let p := (Parcel.new 0 ampleHeap).run
      [.write (.scalar .int64 (-1)), .rewindWrite 0, .write (.scalar .int8Unaligned 7)]
    let q := ((PadCaller.vector .uint8 [5]).contents.run p).2
    q.writeCursor = 6 ∧ q.bytes 6 = 0xff ∧ PadsOnly 3 q := by
  let _ := Target.checked
  intro p q
  refine ⟨by decide +kernel, by decide +kernel, ?_⟩
  have hsize : (PadCaller.vector .uint8 [5]).padSize = 3 := by decide +kernel
  have hcall : PadCall (.vector .uint8 [5]) p (PadCaller.vector .uint8 [5]).padSize q :=
    .own _ (by decide +kernel)
  rw [hsize] at hcall
  have hsafe : ∀ a ∈ q.log, a.kind = .store → a.InBounds := by decide +kernel
  exact writePadBytes_padsOnly hcall ((Reached.new 0 ampleHeap).run _) hsafe

end CUtils
