import Mathlib.Data.List.Nodup
import Mathlib.Data.List.Perm.Subperm
import CUtils.Parcel.Headroom
import CUtils.Parcel.Marshalling

/-!
# Two parcels with the same data

Two parcels that hold the same bytes and the same offsets may differ in what lies behind the data,
in the size of the block and of the offset table, and in where they are being read. As long as
allocations succeed, no writer finds out: from such parcels (`Twin`) every writer returns the same
and leaves such parcels again. This holds of the writers of objects too, if the `Marshalling` of the
object only writes (`Writing`).
-/

namespace CUtils

open StateRun ByteMemory Parcel

/-! ## One parcel -/

/-- Allocations succeed, and the block has been grown by the parcel. -/
structure Ample (p : Parcel) : Prop where
  writable : p.writable = true
  allocator : p.allocator.isSome = true
  heap : ∀ i, (p.heap i).isSome = true
  max : p.maxDataCapacity = defaultCapacity
  regular : Regular p.dataCapacity

theorem Ample.new (allocator : Nat) {heap : Nat → Option Mem} (h : ∀ i, (heap i).isSome = true) :
    Ample (Parcel.new allocator heap) :=
  ⟨rfl, rfl, h, rfl, Regular.zero⟩

theorem Ample.allocated {p : Parcel} (h : Ample p) : Ample p.allocated :=
  ⟨h.writable, h.allocator, fun i => h.heap (i + 1), h.max, h.regular⟩

theorem ensureWritableCapacity_ample (n : Nat) : Keeps Ample (ensureWritableCapacity n) := by
  intro p h
  rw [run_ensureWritableCapacity]
  split
  · exact h
  · split
    · exact h
    · split
      · exact h
      · rename_i hdeclines
        cases p.grant (p.newCapacity n) with
        | none => exact ⟨h.writable, h.allocator, fun i => h.heap (i + 1), h.max, h.regular⟩
        | some fresh =>
            refine ⟨h.writable, h.allocator, fun i => h.heap (i + 1), h.max, ?_⟩
            show Regular (p.newCapacity n)
            -- above the limit the new capacity is the limit, which is not enough
            by_cases hle : szAdd n p.writeCursor ≤ defaultCapacity
            · rw [Parcel.newCapacity, h.max]
              exact (calcNewCapacity_regular hle).2
            · have hover := calcNewCapacity_over (Nat.lt_of_not_le hle) (szAdd_lt _ _)
              rw [← h.max] at hover
              exact absurd (Or.inr (Or.inl hover)) hdeclines

theorem ensureObjectsCapacity_ample : Keeps Ample ensureObjectsCapacity := by
  intro p h
  rw [run_ensureObjectsCapacity]
  split
  · exact h
  · split
    · exact h
    · cases p.grant (szMul p.grownSlots binderSize) with
      | none => exact h.allocated
      | some m => exact ⟨h.writable, h.allocator, fun i => h.heap (i + 1), h.max, h.regular⟩

/-- A parcel in the course of being written. -/
structure Fit (p : Parcel) : Prop where
  sound : Sound p
  synced : p.writeCursor = p.dataSize
  ample : Ample p
  offsets_le : ∀ o ∈ p.offsets, o ≤ defaultCapacity
  offsets_nodup : p.offsets.Nodup

theorem Fit.new (allocator : Nat) {heap : Nat → Option Mem} (h : ∀ i, (heap i).isSome = true) :
    Fit (Parcel.new allocator heap) where
  sound := Sound.new allocator heap
  synced := rfl
  ample := Ample.new allocator h
  offsets_le o ho := absurd ho (by simp [Parcel.new, Parcel.offsets])
  offsets_nodup := List.nodup_nil

theorem Fit.size_le {p : Parcel} (h : Fit p) : p.dataSize ≤ defaultCapacity :=
  h.sound.size_le.trans h.ample.regular.le

theorem Fit.wrote {p p' : Parcel} {bs : List UInt8} (h : Fit p) (hw : Wrote p p' bs)
    (ha : Ample p') : Fit p' where
  sound := h.sound.wrote hw
  synced := by rw [hw.cursor, hw.size, h.synced]
  ample := ha
  offsets_le := hw.frame.offsets ▸ h.offsets_le
  offsets_nodup := hw.frame.offsets ▸ h.offsets_nodup

theorem Fit.room {p : Parcel} (h : Fit p) : p.room.Ample where
  writable := h.ample.writable
  allocator := h.ample.allocator
  heap := h.ample.heap
  max := h.ample.max
  regular := h.ample.regular
  cursor_le := by
    rw [room_cursor, h.synced]
    exact h.sound.size_le
  present hpos := by
    rw [room_present]
    by_contra hd
    have hnull := h.sound.null (by simpa using hd)
    rw [room_capacity, hnull] at hpos
    exact absurd hpos (Nat.lt_irrefl 0)

/-! ## Two parcels -/

/-- The same data and the same offsets. -/
structure Alike (p q : Parcel) : Prop where
  cursor : p.writeCursor = q.writeCursor
  size : p.dataSize = q.dataSize
  bytes : Mem.AgreeTo p.dataSize p.bytes q.bytes
  offsets : p.offsets = q.offsets

/-- Parcels with the same data, of at least `c` bytes. -/
structure Twin (c : Nat) (p q : Parcel) : Prop where
  left : Fit p
  right : Fit q
  alike : Alike p q
  low : c ≤ p.writeCursor

theorem Twin.mono {c c' : Nat} {p q : Parcel} (h : Twin c p q) (hc : c' ≤ c) : Twin c' p q :=
  { h with low := hc.trans h.low }

theorem Fit.started {p : Parcel} (h : Fit p) {c : Nat} (hc : c ≤ p.writeCursor) : Started c p := by
  intro _
  have hsize := h.sound.size_le
  rw [← h.synced] at hsize
  exact ⟨hc, hsize⟩

/-- Both append the same bytes. -/
theorem Alike.wrote {p p' q q' : Parcel} {bs : List UInt8} (h : Alike p q) (hp : Fit p)
    (hq : Fit q) (hw : Wrote p p' bs) (hw' : Wrote q q' bs) : Alike p' q' where
  cursor := by rw [hw.cursor, hw'.cursor, h.cursor]
  size := by rw [hw.size, hw'.size, h.size]
  offsets := by rw [hw.frame.offsets, hw'.frame.offsets, h.offsets]
  bytes := by
    intro i hi
    rw [hw.size] at hi
    by_cases hold : i < p.dataSize
    · have hleft := hw.data_agree hp.sound i hold
      have hright := hw'.data_agree hq.sound i (h.size ▸ hold)
      rw [hleft, hright]
      exact h.bytes i hold
    · -- the new bytes, read from the cursor on
      have hread : p'.bytes.read p.writeCursor bs.length = q'.bytes.read q.writeCursor bs.length := by
        rw [hw.bytes, hw'.bytes]
      have hget := congrArg (fun l => l[i - p.dataSize]?) hread
      simp only [Mem.getElem?_read] at hget
      have hcur : q.writeCursor = p.dataSize := by rw [hq.synced, h.size]
      rw [if_pos (by omega), if_pos (by omega), hp.synced, hcur] at hget
      have hpos : p.dataSize + (i - p.dataSize) = i := by omega
      rw [hpos] at hget
      exact Option.some.inj hget

variable [Target]

theorem ample_respects : Respects (Kept Ample) :=
  Respects.of_storage
    (fun h hsame => ⟨hsame.writable.trans h.writable, hsame.allocator ▸ h.allocator,
      hsame.heap ▸ h.heap, hsame.maxDataCapacity.trans h.max, hsame.dataCapacity ▸ h.regular⟩)
    ensureWritableCapacity_ample ensureObjectsCapacity_ample

/-- What is appended depends on the position only, so it is the same for both. -/
theorem Appends.couples (hmem : defaultCapacity ≤ Target.memMaxLen) {c : Nat} {m : ParcelM Bool}
    {bs : List UInt8} {need : Need} (h : Appends c m bs need) (hneed : need.Modest c)
    (hkeeps : Keeps Ample m) :
    Coupled (Twin c) (fun ok => Twin (if ok then c + bs.length else c)) m m := by
  intro p q ht
  have hlow : c ≤ q.writeCursor := ht.alike.cursor ▸ ht.low
  have hresult : ∀ {p : Parcel}, Fit p → c ≤ p.writeCursor →
      (m.run p).1 = need.met p.writeCursor := by
    intro p hp hc
    have htake := Room.take_ample hmem hp.room hneed (fun hpos => by rw [room_cursor]; omega)
    rw [h.room hp.sound (hp.started hc)] at htake
    rw [room_cursor] at htake
    rw [← htake]
    cases (m.run p).1 with
    | true => rfl
    | false => rfl
  have heq : (m.run p).1 = (m.run q).1 := by
    rw [hresult ht.left ht.low, hresult ht.right hlow, ht.alike.cursor]
  have hleft := h.wrote ht.left.sound (ht.left.started ht.low)
  have hright := h.wrote ht.right.sound (ht.right.started hlow)
  rw [← heq] at hright
  refine ⟨heq, ht.left.wrote hleft (hkeeps p ht.left.ample),
    ht.right.wrote hright (hkeeps q ht.right.ample),
    ht.alike.wrote ht.left ht.right hleft hright, ?_⟩
  have hcur := hleft.cursor
  have hbelow := ht.low
  cases hok : (m.run p).1 with
  | true =>
      rw [hok, if_pos rfl] at hcur
      rw [if_pos rfl]
      omega
  | false =>
      rw [if_neg (by simp)]
      omega

/-! ## Writers -/

omit [Target] in
theorem Need.Modest.mono {need : Need} {c c' : Nat} (h : need.Modest c) (hc : c ≤ c') :
    need.Modest c' := by
  cases need with
  | refused => trivial
  | room request copied size =>
      obtain ⟨hlt, hcopied, hsize, hpos⟩ := h
      exact ⟨hlt, hcopied, hsize, by omega⟩

omit [Target] in
theorem blockNeed_modest (size : Nat) : (blockNeed size).Modest 0 := by
  have hpad := padOf_lt size
  rw [blockNeed]
  split
  · trivial
  · refine ⟨by omega, fun k hk => ?_, le_rfl, by omega⟩
    rw [← Option.some.inj hk]
    omega

omit [Target] in
theorem wordNeed_modest (α : Type) [Scalar α] : (wordNeed (Scalar.width α)).Modest 0 := by
  have hpos := Scalar.width_pos (α := α)
  have hle := Scalar.width_le (α := α)
  refine ⟨by simp only [sizeLimit]; omega, fun k hk => absurd hk (by simp), le_rfl, by omega⟩

section Writers

variable (hmem : defaultCapacity ≤ Target.memMaxLen) (c : Nat)

include hmem

/-- A piece that does not rely on what has been put before it. -/
theorem Appends.couples_from {m : ParcelM Bool} {bs : List UInt8} {need : Need}
    (h : Appends 0 m bs need) (hneed : need.Modest 0) (hkeeps : Keeps Ample m) :
    Couples (Twin c) m m := by
  refine ((h.mono (Nat.zero_le c)).couples hmem (hneed.mono (Nat.zero_le c)) hkeeps).mono
    (fun _ _ h => h) fun ok p q ht => ht.mono ?_
  split
  · exact Nat.le_add_right _ _
  · exact le_rfl

theorem write_couples {α : Type} [Scalar α] (v : α) : Couples (Twin c) (write v) (write v) :=
  (write_appends v).couples_from hmem c (wordNeed_modest α) (write_tracks ample_respects.toRespectsData v)

/-- A word that has been put is there. -/
theorem write_coupled {α : Type} [Scalar α] (v : α) :
    Coupled (Twin c) (fun ok => Twin (if ok then c + Scalar.width α else c)) (write v) (write v) := by
  have h := ((write_appends v).mono (Nat.zero_le c)).couples hmem
    ((wordNeed_modest α).mono (Nat.zero_le c)) (write_tracks ample_respects.toRespectsData v)
  rwa [Scalar.length_encode] at h

theorem writeBuffer_couples (data : Option Mem) (size : Nat) :
    Couples (Twin c) (writeBuffer data size) (writeBuffer data size) := by
  cases data with
  | none => exact Couples.pure false
  | some data =>
      exact (writeBuffer_appends data size).couples_from hmem c (blockNeed_modest size)
        (writeBuffer_tracks ample_respects.toRespectsData _ _)

theorem writeBufferAddTerminator_couples (data : Option Mem) (size typeSize : Nat) :
    Couples (Twin c) (writeBufferAddTerminator data size typeSize)
      (writeBufferAddTerminator data size typeSize) := by
  cases data with
  | none => exact Couples.pure false
  | some data =>
      by_cases hargs : typeSize = 0 ∨ size < typeSize ∨ sizeLimit ≤ size + 3
      · rw [writeBufferAddTerminator_refused data hargs]
        exact Couples.pure false
      · by_cases h4 : typeSize ≤ 4
        · exact (terminated_appends data (by omega) (by omega) h4).couples_from hmem c
            (blockNeed_modest size) (writeBufferAddTerminator_tracks ample_respects.toRespectsData _ _ _)
        · -- the data is copied before the terminator is refused
          have hpad := padOf_lt size
          rw [writeBufferAddTerminator_eq data (by omega) (by omega) (by omega), if_pos (by omega),
            ← Prog.andThen_assoc]
          have hmodest : (Need.room (size + padOf size) (some (size - typeSize))
              (size - typeSize)).Modest 0 := by
            refine ⟨by omega, fun k hk => ?_, by omega, by omega⟩
            rw [← Option.some.inj hk]
            omega
          have hkeeps : Keeps Ample ((ensureWritableCapacity (size + padOf size)).andThen
              (writeDataBytes data (size - typeSize))) := by
            rw [← unless_eq_andThen]
            exact unless_tracks (ample_respects.ensure _) (writeDataBytes_tracks ample_respects.toRespectsData _ _)
          exact Coupled.andThen ((unterminated_appends data _ _).couples_from hmem c hmodest hkeeps)
            (Couples.pure false) fun _ _ h => h

theorem writeLengthAndChars_couples (data : Mem) (dataLength : BitVec 32) (typeSize : Nat) :
    Couples (Twin c) (writeLengthAndChars data dataLength typeSize)
      (writeLengthAndChars data dataLength typeSize) := by
  rw [writeLengthAndChars, unless_eq_andThen]
  exact Coupled.andThen (write_couples hmem c _) (writeBufferAddTerminator_couples hmem c _ _ _)
    fun _ _ h => h

theorem writeString_couples (value : List Char8) :
    Couples (Twin c) (writeString value) (writeString value) :=
  Coupled.ite (fun _ => Couples.pure false) fun _ => writeLengthAndChars_couples hmem c _ _ _

theorem writeString16_couples (value : List Char16) :
    Couples (Twin c) (writeString16 value) (writeString16 value) :=
  Coupled.ite (fun _ => Couples.pure false) fun _ => writeLengthAndChars_couples hmem c _ _ _

theorem writeVector_couples {α : Type} {size : Nat} (hsize : size ≤ 24)
    {writeElem : α → ParcelM Bool}
    (helem : ∀ k v, Couples (Twin k) (writeElem v) (writeElem v)) (val : List α) :
    Couples (Twin c) (writeVector size writeElem val) (writeVector size writeElem val) := by
  rw [writeVector]
  refine Coupled.ite (fun _ => Couples.pure false) fun hlen => ?_
  have hmul : val.length * size ≤ 2147483647 * 24 :=
    Nat.mul_le_mul (Nat.le_of_not_lt hlen) hsize
  have hpad : getPadSize (szMul val.length size) = padOf (val.length * size) := by
    rw [szMul_of_lt (by simp only [sizeLimit]; omega),
      getPadSize_eq (by simp only [sizeLimit]; omega)]
  have hlt := padOf_lt (val.length * size)
  have hmodest : (wordNeed (padOf (val.length * size))).Modest 4 :=
    ⟨by simp only [sizeLimit]; omega, fun k hk => absurd hk (by simp), le_rfl, Or.inr (by decide)⟩
  have hkeeps : Keeps Ample ((ensureWritableCapacity (padOf (val.length * size))).andThen do
      writePadBytes (padOf (val.length * size))
      return true) := by
    rw [← unless_eq_andThen]
    exact unless_tracks (ample_respects.ensure _)
      (Tracks.bind (writePadBytes_tracks ample_respects.toRespectsData _) fun _ => Tracks.pure _)
  simp only [hpad, unless_eq_andThen]
  refine Coupled.andThen (write_coupled hmem c (BitVec.ofNat 32 val.length)) ?_ fun _ _ h => h
  -- the count is there, so there is data before the padding
  have hcount : c + Scalar.width (BitVec 32) = c + 4 := rfl
  simp only [if_true, hcount]
  refine Coupled.andThen ((Couples.allM (fun v => helem (c + 4) v) val)) ?_ fun _ _ h => h.mono (by omega)
  refine (((pad_appends _).mono (by omega : 4 ≤ c + 4)).couples hmem
    (hmodest.mono (by omega)) hkeeps).mono (fun _ _ h => h) fun ok p q ht => ht.mono ?_
  cases ok with
  | true =>
      rw [if_pos rfl]
      omega
  | false =>
      rw [if_neg (by simp)]
      omega

theorem Writer.couples (w : Writer) : Couples (Twin c) w.exec w.exec := by
  cases w with
  | scalar k v => cases k <;> exact write_couples hmem c _
  | buffer data size | unpadBuffer data size => exact writeBuffer_couples hmem c data size
  | bufferAddTerminator data size typeSize =>
      exact writeBufferAddTerminator_couples hmem c data size typeSize
  | cString value =>
      cases value with
      | none => exact Couples.pure false
      | some value =>
          exact Coupled.ite (fun _ => Couples.pure false) fun _ => writeBuffer_couples hmem c _ _
  | string value => exact writeString_couples hmem c value
  | string16 value => exact writeString16_couples hmem c value
  | string8WithLength value =>
      cases value with
      | none => exact write_couples hmem c _
      | some value => exact writeString_couples hmem c value
  | string16WithLength value =>
      cases value with
      | none => exact write_couples hmem c _
      | some value => exact writeString16_couples hmem c value
  | vector k val =>
      cases k with
      | string => exact writeVector_couples hmem c (by decide) (writeString_couples hmem) val
      | string16 => exact writeVector_couples hmem c (by decide) (writeString16_couples hmem) val
      | _ => exact writeVector_couples hmem c (by decide) (fun k v => write_couples hmem k _) val

end Writers

/-! ## Objects -/

omit [Target] in
/-- Changes to the bookkeeping of objects. -/
theorem Fit.of_same {p p' : Parcel} (h : Fit p) (hs : Sound p') (ha : Ample p')
    (hcur : p'.writeCursor = p.writeCursor) (hsize : p'.dataSize = p.dataSize)
    (ho : p'.offsets = p.offsets) : Fit p' :=
  ⟨hs, by rw [hcur, hsize, h.synced], ha, ho ▸ h.offsets_le, ho ▸ h.offsets_nodup⟩

omit [Target] in
theorem Alike.of_same {p p' q q' : Parcel} (h : Alike p q)
    (hp : p' = { p with objectOffsets := p'.objectOffsets, objectsCapacity := p'.objectsCapacity
                        objectHolder := p'.objectHolder, held := p'.held, heap := p'.heap })
    (hq : q' = { q with objectOffsets := q'.objectOffsets, objectsCapacity := q'.objectsCapacity
                        objectHolder := q'.objectHolder, held := q'.held, heap := q'.heap })
    (ho : p'.offsets = q'.offsets) : Alike p' q' := by
  have hcursor : p'.writeCursor = q'.writeCursor := by
    rw [hp, hq]
    exact h.cursor
  have hsize : p'.dataSize = q'.dataSize := by
    rw [hp, hq]
    exact h.size
  have hbytes : Mem.AgreeTo p'.dataSize p'.bytes q'.bytes := by
    rw [Parcel.bytes, Parcel.bytes, hp, hq]
    exact h.bytes
  exact ⟨hcursor, hsize, hbytes, ho⟩

omit [Target] in
/-- Different offsets below the limit are not many. -/
theorem Fit.objectCursor_le {p : Parcel} (h : Fit p) : p.objectCursor ≤ defaultCapacity + 1 := by
  have hsub : p.offsets ⊆ List.range (defaultCapacity + 1) := fun o ho =>
    List.mem_range.2 (Nat.lt_succ_of_le (h.offsets_le o ho))
  have hle := (h.offsets_nodup.subperm hsub).length_le
  rwa [List.length_range] at hle

theorem ensureObjectsCapacity_fit {p : Parcel} (h : Fit p) :
    (ensureObjectsCapacity.run p).1 = true ∧ Fit (ensureObjectsCapacity.run p).2 := by
  have hsame := ensureObjectsCapacity_eq p
  refine ⟨?_, h.of_same (ensureObjectsCapacity_extends p h.sound).sound
    (ensureObjectsCapacity_ample p h.ample) (by rw [hsame]) (by rw [hsame])
    (offsets_ensureObjectsCapacity p)⟩
  have hle := h.objectCursor_le
  simp only [defaultCapacity] at hle
  rw [run_ensureObjectsCapacity]
  by_cases hroom : szSub p.objectsCapacity p.objectCursor ≥ 1
  · rw [if_pos hroom]
  · -- the table is full, so it is as large as the number of offsets
    have hfull : p.objectsCapacity = p.objectCursor := by
      rcases Nat.lt_trichotomy p.objectsCapacity p.objectCursor with hlt | heq | hgt
      · rw [szSub_of_lt hlt] at hroom
        simp only [sizeLimit] at hroom
        omega
      · exact heq
      · rw [szSub_of_le hgt.le] at hroom
        omega
    have hgrown : p.grownSlots = (p.objectsCapacity + 2) * 3 / 2 := by
      rw [Parcel.grownSlots, szAdd_of_lt (by simp only [sizeLimit]; omega),
        szMul_of_lt (by simp only [sizeLimit]; omega)]
    have hsize : szMul p.grownSlots binderSize ≤ ptrdiffMax := by
      rw [szMul_of_lt (by rw [hgrown]; simp only [binderSize, sizeLimit]; omega), hgrown]
      simp only [binderSize, ptrdiffMax]
      omega
    obtain ⟨m, hm⟩ := Option.isSome_iff_exists.1 (h.ample.heap 0)
    have hnone : ¬ p.allocator.isNone = true := by
      rw [Option.isNone_iff_eq_none]
      intro hnone
      have := h.ample.allocator
      rw [hnone] at this
      cases this
    rw [if_neg hroom, if_neg hnone, Parcel.grant, if_pos hsize, hm]
    rfl

theorem ensureObjectsCapacity_couples (c : Nat) :
    Coupled (Twin c) (fun ok p q => ok = true ∧ Twin c p q) ensureObjectsCapacity
      ensureObjectsCapacity := by
  intro p q ht
  obtain ⟨hok, hfit⟩ := ensureObjectsCapacity_fit ht.left
  obtain ⟨hok', hfit'⟩ := ensureObjectsCapacity_fit ht.right
  have hsame := ensureObjectsCapacity_eq p
  have hsame' := ensureObjectsCapacity_eq q
  refine ⟨hok.trans hok'.symm, hok, hfit, hfit', ht.alike.of_same ?_ ?_ ?_, ?_⟩
  · rw [hsame]
  · rw [hsame']
  · rw [offsets_ensureObjectsCapacity, offsets_ensureObjectsCapacity, ht.alike.offsets]
  · rw [hsame]
    exact ht.low

omit [Target] in
theorem Ample.recorded {p : Parcel} (h : Ample p) (table : Option (List Nat)) (log : List Access) :
    Ample { p with objectOffsets := table, log := log } :=
  ⟨h.writable, h.allocator, h.heap, h.max, h.regular⟩

/-- An offset that is recorded is new and lies in the data. -/
theorem Fit.recorded {p : Parcel} {offset : Nat} (h : Fit p)
    (hno : ¬ (offset > p.dataSize ∨ offset ∈ p.offsets)) : Fit ((writeObjectOffset offset).run p).2 := by
  have hs := (writeObjectOffset_extends offset p h.sound).sound
  rw [run_writeObjectOffset, if_neg hno] at hs ⊢
  refine ⟨hs, h.synced, h.ample.recorded _ _, ?_, ?_⟩
  · intro o ho
    rcases List.mem_append.1 (show o ∈ p.offsets ++ [offset] from ho) with ho | ho
    · exact h.offsets_le o ho
    · have := h.size_le
      rw [List.mem_singleton.1 ho]
      omega
  · have hnew : offset ∉ p.offsets := fun h => hno (Or.inr h)
    show (p.offsets ++ [offset]).Nodup
    rw [← List.concat_eq_append]
    exact h.offsets_nodup.concat hnew

theorem writeObjectOffset_couples (c offset : Nat) :
    Couples (Twin c) (writeObjectOffset offset) (writeObjectOffset offset) := by
  intro p q ht
  have hsame : (offset > q.dataSize ∨ offset ∈ q.offsets) ↔
      (offset > p.dataSize ∨ offset ∈ p.offsets) := by
    rw [ht.alike.size, ht.alike.offsets]
  by_cases hno : offset > p.dataSize ∨ offset ∈ p.offsets
  · rw [run_writeObjectOffset, run_writeObjectOffset, if_pos hno, if_pos (hsame.2 hno)]
    exact ⟨rfl, ht⟩
  · have hno' := fun h => hno (hsame.1 h)
    have hleft := ht.left.recorded hno
    have hright := ht.right.recorded hno'
    rw [run_writeObjectOffset, if_neg hno] at hleft ⊢
    rw [run_writeObjectOffset, if_neg hno'] at hright ⊢
    have hoffsets : p.offsets ++ [offset] = q.offsets ++ [offset] := by rw [ht.alike.offsets]
    exact ⟨rfl, hleft, hright,
      ⟨ht.alike.cursor, ht.alike.size, ht.alike.bytes, hoffsets⟩, ht.low⟩

theorem holdParcelable_couples (c : Nat) (o : Parcelable) (offset : Nat) :
    Couples (Twin c) (holdParcelable o offset) (holdParcelable o offset) := by
  intro p q ht
  have hleft := (holdParcelable_extends o offset p ht.left.sound).sound
  have hright := (holdParcelable_extends o offset q ht.right.sound).sound
  exact ⟨rfl, ht.left.of_same hleft (ample_respects.hold o offset p ht.left.ample) rfl rfl rfl,
    ht.right.of_same hright (ample_respects.hold o offset q ht.right.ample) rfl rfl rfl,
    ht.alike.of_same rfl rfl ht.alike.offsets, ht.low⟩

theorem writeRemoteObject_couples {o : Option Parcelable}
    (ho : ∀ x ∈ o, ∀ c, Couples (Twin c) x.marshalling x.marshalling) (c : Nat) :
    Couples (Twin c) (writeRemoteObject o) (writeRemoteObject o) := by
  rw [writeRemoteObject]
  refine Coupled.get_bind fun p q ht => ?_
  rw [ht.alike.cursor]
  generalize q.writeCursor = placeholder
  suffices h : Couples (Twin c) _ _ from h p q ht
  cases o with
  | none => exact Couples.pure false
  | some x =>
      refine Coupled.ite (fun _ => Couples.pure false) fun _ => ?_
      refine Coupled.bind (ensureObjectsCapacity_couples c) fun ok => ?_
      refine Coupled.mono (R := Twin c) ?_ (fun _ _ h => h.2) fun _ _ _ h => h
      refine Coupled.ite (fun _ => Couples.pure false) fun _ => ?_
      refine Coupled.bind (ho x rfl c) fun ok => ?_
      refine Coupled.ite (fun _ => Couples.pure false) fun _ => ?_
      refine Coupled.bind (writeObjectOffset_couples c placeholder) fun _ => ?_
      exact Coupled.ite
        (fun _ => Coupled.bind (holdParcelable_couples c x placeholder) fun _ => Couples.pure true)
        fun _ => Couples.pure true

/-- A failed write of a remote object is taken back. -/
theorem Fit.rollback {p p' : Parcel} (hp : Fit p) (hp' : Fit p') (h : Extended p p') :
    Fit { p' with writeCursor := p.writeCursor, dataSize := p.dataSize } where
  sound := (h.rollback hp.sound).sound
  synced := hp.synced
  ample := ⟨hp'.ample.writable, hp'.ample.allocator, hp'.ample.heap, hp'.ample.max,
    hp'.ample.regular⟩
  offsets_le := hp'.offsets_le
  offsets_nodup := hp'.offsets_nodup

theorem Twin.rollback {c : Nat} {p p' q q' : Parcel} (h : Twin c p q) (h' : Twin c p' q')
    (hp : Extended p p') (hq : Extended q q') :
    Twin c { p' with writeCursor := p.writeCursor, dataSize := p.dataSize }
      { q' with writeCursor := q.writeCursor, dataSize := q.dataSize } := by
  obtain ⟨n, -, hsize⟩ := hp.moved
  refine ⟨h.left.rollback h'.left hp, h.right.rollback h'.right hq,
    ⟨h.alike.cursor, h.alike.size, ?_, h'.alike.offsets⟩, h.low⟩
  have hbytes : Mem.AgreeTo p.dataSize p'.bytes q'.bytes := h'.alike.bytes.mono (by omega)
  exact hbytes

section Parcelables

variable (hmem : defaultCapacity ≤ Target.memMaxLen)

include hmem

theorem writeInt32_couples (v : BitVec 32) (c : Nat) :
    Couples (Twin c) (writeInt32 v) (writeInt32 v) :=
  Writer.couples hmem c (.scalar .int32 v)

theorem writeParcelable_couples {o : Option Parcelable}
    (hext : ∀ x ∈ o, Tracks Extends x.marshalling)
    (ho : ∀ x ∈ o, ∀ c, Couples (Twin c) x.marshalling x.marshalling) (c : Nat) :
    Couples (Twin c) (writeParcelable o) (writeParcelable o) := by
  intro p q ht
  cases o with
  | none => exact writeInt32_couples hmem 0 c p q ht
  | some x =>
      cases hr : x.asRemote with
      | false =>
          rw [run_writeParcelable_plain hr, run_writeParcelable_plain hr]
          exact Coupled.andThen (writeInt32_couples hmem 1 c) (ho x rfl c) (fun _ _ h => h) p q ht
      | true =>
          rw [run_writeParcelable_remote hr, run_writeParcelable_remote hr]
          dsimp only
          obtain ⟨heq, hfirst⟩ := writeInt32_couples hmem 1 c p q ht
          rw [← heq]
          by_cases hok : ((writeInt32 1).run p).1 = true
          · rw [if_pos hok, if_pos hok]
            have hp := writeInt32_extends 1 p ht.left.sound
            have hq := writeInt32_extends 1 q ht.right.sound
            have hp' := hp.trans (writeRemoteObject_extends hext _ hp.sound)
            have hq' := hq.trans (writeRemoteObject_extends hext _ hq.sound)
            obtain ⟨heq', hsecond⟩ := writeRemoteObject_couples ho c _ _ hfirst
            rw [← heq']
            split
            · exact ⟨rfl, hsecond⟩
            · exact ⟨rfl, ht.rollback hsecond hp' hq'⟩
          · rw [if_neg hok, if_neg hok]
            exact ⟨rfl, hfirst⟩

theorem writeStrongParcelable_couples {o : Option Parcelable}
    (hext : ∀ x ∈ o, Tracks Extends x.marshalling)
    (ho : ∀ x ∈ o, ∀ c, Couples (Twin c) x.marshalling x.marshalling) (c : Nat) :
    Couples (Twin c) (writeStrongParcelable o) (writeStrongParcelable o) := by
  cases o with
  | none => exact Coupled.bind (writeInt32_couples hmem 0 c) fun _ => Couples.pure true
  | some x =>
      refine writeParcelable_couples hmem (o := some (x.setBehavior holdObject)) (fun y hy => ?_)
        (fun y hy => ?_) c
      · rw [← Option.some.inj hy]
        exact hext x rfl
      · rw [← Option.some.inj hy]
        exact ho x rfl

end Parcelables

/-! ## Sequences of writes -/

/-- The body of a `Marshalling` that only writes. -/
inductive Writing : ParcelM Bool → Prop
  | ret (b : Bool) : Writing (pure b)
  | write (w : Writer) {k : Bool → ParcelM Bool} (hk : ∀ b, Writing (k b)) :
      Writing (w.exec >>= k)
  | writeRemoteObject (o : Option Parcelable) {k : Bool → ParcelM Bool}
      (ho : ∀ x ∈ o, Writing x.marshalling) (hk : ∀ b, Writing (k b)) :
      Writing (writeRemoteObject o >>= k)
  | writeParcelable (o : Option Parcelable) {k : Bool → ParcelM Bool}
      (ho : ∀ x ∈ o, Writing x.marshalling) (hk : ∀ b, Writing (k b)) :
      Writing (writeParcelable o >>= k)
  | writeStrongParcelable (o : Option Parcelable) {k : Bool → ParcelM Bool}
      (ho : ∀ x ∈ o, Writing x.marshalling) (hk : ∀ b, Writing (k b)) :
      Writing (writeStrongParcelable o >>= k)

theorem Writing.marshals {m : ParcelM Bool} (h : Writing m) : Marshals m := by
  induction h with
  | ret b => exact .ret b
  | write w _ ih => exact .write w ih
  | writeRemoteObject o _ _ iho ih => exact .writeRemoteObject o iho ih
  | writeParcelable o _ _ iho ih => exact .writeParcelable o iho ih
  | writeStrongParcelable o _ _ iho ih => exact .writeStrongParcelable o iho ih

theorem Writing.extends {o : Option Parcelable} (h : ∀ x ∈ o, Writing x.marshalling) :
    ∀ x ∈ o, Tracks Extends x.marshalling :=
  fun x hx => (h x hx).marshals.extends

theorem Writing.couples (hmem : defaultCapacity ≤ Target.memMaxLen) {m : ParcelM Bool}
    (h : Writing m) (c : Nat) : Couples (Twin c) m m := by
  induction h generalizing c with
  | ret b => exact Couples.pure b
  | write w _ ih => exact Coupled.bind (w.couples hmem c) fun b => ih b c
  | writeRemoteObject o _ _ iho ih =>
      exact Coupled.bind (writeRemoteObject_couples iho c) fun b => ih b c
  | writeParcelable o ho _ iho ih =>
      exact Coupled.bind (writeParcelable_couples hmem (Writing.extends ho) iho c) fun b => ih b c
  | writeStrongParcelable o ho _ iho ih =>
      exact Coupled.bind (writeStrongParcelable_couples hmem (Writing.extends ho) iho c)
        fun b => ih b c

/-- A call that writes. -/
inductive WriteOp
  | write (w : Writer)
  | writeRemoteObject (o : Option Parcelable) (ho : ∀ x ∈ o, Writing x.marshalling)
  | writeParcelable (o : Option Parcelable) (ho : ∀ x ∈ o, Writing x.marshalling)
  | writeStrongParcelable (o : Option Parcelable) (ho : ∀ x ∈ o, Writing x.marshalling)

def WriteOp.exec : WriteOp → ParcelM Bool
  | write w => w.exec
  | writeRemoteObject o _ => CUtils.writeRemoteObject o
  | writeParcelable o _ => CUtils.writeParcelable o
  | writeStrongParcelable o _ => CUtils.writeStrongParcelable o

/-- A sequence of writes, with the result of each. -/
def writeAll (ops : List WriteOp) : ParcelM (List Bool) := ops.mapM WriteOp.exec

theorem WriteOp.extends (op : WriteOp) : Tracks Extends op.exec := by
  cases op with
  | write w => exact w.extends
  | writeRemoteObject o ho => exact writeRemoteObject_extends (Writing.extends ho)
  | writeParcelable o ho => exact writeParcelable_extends (Writing.extends ho)
  | writeStrongParcelable o ho => exact writeStrongParcelable_extends (Writing.extends ho)

theorem writeAll_extends (ops : List WriteOp) : Tracks Extends (writeAll ops) :=
  Tracks.mapM WriteOp.extends ops

theorem WriteOp.couples (hmem : defaultCapacity ≤ Target.memMaxLen) (op : WriteOp) (c : Nat) :
    Couples (Twin c) op.exec op.exec := by
  cases op with
  | write w => exact w.couples hmem c
  | writeRemoteObject o ho =>
      exact writeRemoteObject_couples (fun x hx => (ho x hx).couples hmem) c
  | writeParcelable o ho =>
      exact writeParcelable_couples hmem (Writing.extends ho) (fun x hx => (ho x hx).couples hmem) c
  | writeStrongParcelable o ho =>
      exact writeStrongParcelable_couples hmem (Writing.extends ho)
        (fun x hx => (ho x hx).couples hmem) c

/-- **Writes do not tell apart parcels with the same data.** -/
theorem writeAll_couples (hmem : defaultCapacity ≤ Target.memMaxLen) (ops : List WriteOp)
    (c : Nat) : Couples (Twin c) (writeAll ops) (writeAll ops) :=
  Couples.mapM fun op _ => op.couples hmem c

omit [Target] in
theorem Fit.twin {p : Parcel} (h : Fit p) : Twin 0 p p :=
  ⟨h, h, ⟨rfl, rfl, Mem.AgreeTo.refl _ _, rfl⟩, Nat.zero_le _⟩

theorem writeAll_fit (hmem : defaultCapacity ≤ Target.memMaxLen) (ops : List WriteOp) {p : Parcel}
    (h : Fit p) : Fit ((writeAll ops).run p).2 :=
  (writeAll_couples hmem ops 0 p p h.twin).2.left

end CUtils
