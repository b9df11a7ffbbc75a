import CUtils.Parcel.Items

/-!
# Reading an item where it stands

Where a source has the bytes of an item, every reader that matches the writer of the item returns
the value and leaves the cursor behind the bytes (`Plain.lands`). The value-returning readers and
those with an out-parameter are treated alike; what is left to check for each kind is that the
cast of the reader undoes the one of the writer.
-/

namespace CUtils

open StateRun ByteMemory Parcel

variable [Target]

/-! ## Reading one item -/

section Reading

variable {s : Source} {p : Parcel} {r : Nat}

/-- `m` returns `b` and leaves the cursor at `r`. -/
def Lands {β : Type} (p : Parcel) (m : ParcelM β) (b : β) (r : Nat) : Prop :=
  (m.run p).1 = b ∧ (m.run p).2.At r

omit [Target] in
theorem Lands.map {β γ : Type} {m : ParcelM β} {b : β} (f : β → γ) (h : Lands p m b r) :
    Lands p (f <$> m) (f b) r := ⟨congrArg f h.1, h.2⟩

theorem Sees.lands_word {α : Type} [Scalar α] {v : α} (h : Sees s p) (hat : p.At r)
    (hbytes : s.Has r (Script.word v).bytes) :
    Lands p readValue v (r + (Script.word v).bytes.length) := by
  rw [Script.bytes_word] at hbytes ⊢
  rw [Scalar.length_encode]
  obtain ⟨hres, -, hnext⟩ := readValue_follows h hat (Source.word_of_has hbytes)
  exact ⟨hres, hnext⟩

theorem Sees.lands_wordRef {α : Type} [Scalar α] {v : α} (h : Sees s p) (hat : p.At r)
    (hbytes : s.Has r (Script.word v).bytes) (old : α) :
    Lands p (read old) (true, v) (r + (Script.word v).bytes.length) := by
  rw [Script.bytes_word] at hbytes ⊢
  rw [Scalar.length_encode]
  obtain ⟨hres, -, hnext⟩ := h.read_some hat (Source.word_of_has hbytes) old
  exact ⟨hres, hnext⟩

/-- A value that is written as a wider word and cast back. -/
theorem Sees.lands_cast {β : Type} {w : BitVec 32} {v : β} (h : Sees s p) (hat : p.At r)
    (hbytes : s.Has r (Script.word w).bytes) (cast : BitVec 32 → β) (hcast : cast w = v) :
    Lands p (cast <$> readValue) v (r + (Script.word w).bytes.length) :=
  hcast ▸ (h.lands_word hat hbytes).map cast

theorem Sees.lands_padded {β : Type} {w : BitVec 32} {v : β} (h : Sees s p) (hat : p.At r)
    (hbytes : s.Has r (Script.word w).bytes) (cast : BitVec 32 → β) (hcast : cast w = v)
    (old : β) : Lands p (readPadded cast old) (true, v) (r + (Script.word w).bytes.length) := by
  rw [Script.bytes_word] at hbytes ⊢
  rw [Scalar.length_encode]
  obtain ⟨hres, -, hnext⟩ :=
    readPadded_follows cast old h hat (Decoder.map_of (Source.word_of_has hbytes))
  exact ⟨hcast ▸ hres, hnext⟩

omit [Target] in
theorem setWidth_setWidth_self {w : Nat} (v : BitVec w) (h : w ≤ 32) :
    (v.setWidth 32).setWidth w = v := by
  rw [BitVec.setWidth_setWidth_of_le v h, BitVec.setWidth_eq]

theorem Sees.lands_scalar {k : ScalarKind} {v : k.Elem} {m : ParcelM k.Elem} (h : Sees s p)
    (hat : p.At r) (hbytes : s.Has r (k.script v).bytes) (hm : k.valueReader = some m) :
    Lands p m v (r + (k.script v).bytes.length) := by
  cases k with
  | int8Unaligned | int16Unaligned | uint8Unaligned | uint16Unaligned =>
      exact absurd hm (by simp [ScalarKind.valueReader])
  | bool =>
      rw [← Option.some.inj hm]
      exact h.lands_cast hat hbytes (· != 0) (boolWord_ne_zero v)
  | int8 =>
      rw [← Option.some.inj hm]
      exact h.lands_cast hat hbytes (BitVec.setWidth 8) (setWidth_signExtend v (by decide))
  | int16 =>
      rw [← Option.some.inj hm]
      exact h.lands_cast hat hbytes (BitVec.setWidth 16) (setWidth_signExtend v (by decide))
  | uint8 =>
      rw [← Option.some.inj hm]
      exact h.lands_cast hat hbytes (BitVec.setWidth 8) (setWidth_setWidth_self v (by decide))
  | uint16 =>
      rw [← Option.some.inj hm]
      exact h.lands_cast hat hbytes (BitVec.setWidth 16) (setWidth_setWidth_self v (by decide))
  | _ =>
      rw [← Option.some.inj hm]
      exact h.lands_word hat hbytes

theorem Sees.lands_scalarRef {k : ScalarKind} {v : k.Elem} {m : k.Elem → ParcelM (Bool × k.Elem)}
    (h : Sees s p) (hat : p.At r) (hbytes : s.Has r (k.script v).bytes)
    (hm : k.refReader = some m) (old : k.Elem) :
    Lands p (m old) (true, v) (r + (k.script v).bytes.length) := by
  cases k with
  | boolUnaligned | pointer => exact absurd hm (by simp [ScalarKind.refReader])
  | bool =>
      rw [← Option.some.inj hm]
      exact h.lands_padded hat hbytes (· != 0) (boolWord_ne_zero v) old
  | int8 =>
      rw [← Option.some.inj hm]
      exact h.lands_padded hat hbytes (BitVec.setWidth 8) (setWidth_signExtend v (by decide)) old
  | int16 =>
      rw [← Option.some.inj hm]
      exact h.lands_padded hat hbytes (BitVec.setWidth 16) (setWidth_signExtend v (by decide)) old
  | uint8 =>
      rw [← Option.some.inj hm]
      exact h.lands_padded hat hbytes (BitVec.setWidth 8) (setWidth_setWidth_self v (by decide)) old
  | uint16 =>
      rw [← Option.some.inj hm]
      exact h.lands_padded hat hbytes (BitVec.setWidth 16) (setWidth_setWidth_self v (by decide))
        old
  | _ =>
      rw [← Option.some.inj hm]
      exact h.lands_wordRef hat hbytes old

theorem Sees.lands_text {α : Type} [Scalar α] [DecidableEq α] {value : List α} (h : Sees s p)
    (hat : p.At r) (hlen : (value.length : Int) < int32Max) (hbytes : s.Has r (textBytes value)) :
    Lands p (readChars : ParcelM (_ × Option (List α)))
      (some (BitVec.ofNat 32 value.length), some value) (r + (textBytes value).length) := by
  obtain ⟨hres, -, hnext⟩ := readChars_follows h hat (text_of_has hlen hbytes)
  exact ⟨hres, hnext⟩

/-- The bytes at the cursor, and the padding behind them. -/
theorem Sees.padded {bs : List UInt8} (h : Sees s p) (hat : p.At r)
    (hbytes : s.Has r (bs ++ List.replicate (padOf bs.length) 0)) :
    p.readCursor = r ∧ bs.length ≤ p.getReadableBytes ∧ p.bytes.read r bs.length = bs ∧
      getPadSize bs.length = padOf bs.length ∧
      ∃ j, p.scan (szAdd p.readCursor bs.length) = some j ∧
        ((p.consumed bs.length j).skipped (padOf bs.length)).At
          (r + (bs ++ List.replicate (padOf bs.length) (0 : UInt8)).length) := by
  obtain ⟨hdata, -⟩ := Source.has_append hbytes
  obtain ⟨hcur, hle, hread, j, hj, hsees, hnext⟩ := h.consumed hat hdata
  have hbound := h.bound hdata
  have hcap := h.sound.size_le.trans h.sound.cap_le
  refine ⟨hcur, hle, hread, getPadSize_eq ?_, j, hj, ?_⟩
  · simp only [ptrdiffMax, sizeLimit] at *
    omega
  · have hskip := (hsees.skipped (Or.inl hnext) (padOf bs.length)).2
    rwa [Nat.add_assoc, ← List.length_replicate (n := padOf bs.length) (a := (0 : UInt8)),
      ← List.length_append, List.length_replicate] at hskip

theorem Sees.lands_buffer {data : List UInt8} (hne : data ≠ []) (h : Sees s p) (hat : p.At r)
    (hbytes : s.Has r (data ++ List.replicate (padOf data.length) 0)) :
    Lands p (readUnpadBuffer data.length) (some data)
      (r + (data ++ List.replicate (padOf data.length) (0 : UInt8)).length) := by
  obtain ⟨rfl, hle, hread, hpad, j, hj, hnext⟩ := h.padded hat hbytes
  have hdata := h.sound.data_isSome (List.length_pos_iff.2 hne) hle
  rw [Lands, run_readUnpadBuffer, if_pos hle, hj, hpad]
  refine ⟨?_, hnext⟩
  show p.handed data.length = some data
  rw [Parcel.handed, if_pos hdata, hread]

theorem Sees.lands_cString {value : List Char8} (hnul : 0 ∉ value) (h : Sees s p) (hat : p.At r)
    (hbytes : s.Has r (value ++ [0] ++ List.replicate (padOf (value.length + 1)) 0)) :
    Lands p readCString (some value)
      (r + (value ++ [(0 : UInt8)] ++ List.replicate (padOf (value.length + 1)) 0).length) := by
  have hlen : (value ++ [(0 : UInt8)]).length = value.length + 1 := List.length_append
  have hpadded : s.Has r (value ++ [0] ++
      List.replicate (padOf (value ++ [(0 : UInt8)]).length) 0) := by rwa [hlen]
  obtain ⟨rfl, hle, hread, hpad, j, hj, hnext⟩ := h.padded hat hpadded
  rw [hlen] at hle hread hpad hj hnext
  have hdata := h.sound.data_isSome (Nat.succ_pos _) hle
  -- the first NUL among the readable bytes is the terminator
  have hfind : (p.bytes.read p.readCursor p.getReadableBytes).findIdx? (· == 0) =
      some value.length := by
    obtain ⟨t, ht⟩ := Nat.exists_eq_add_of_le hle
    rw [ht, Mem.read_add, hread, List.append_assoc, List.findIdx?_append,
      List.findIdx?_eq_none_iff.2 (fun x hx => by simpa using fun h0 : x = 0 => hnul (h0 ▸ hx))]
    simp [List.findIdx?_cons]
  rw [Lands, run_readCString, hfind]
  simp only [Option.elim]
  rw [h.sound.szAdd_succ hle, hj]
  simp only [hpad]
  refine ⟨?_, hnext⟩
  rw [Parcel.handed, if_pos hdata, hread, Option.map_some, List.take_left]

/-- **Each reader inverts its writer**: where the bytes of an item stand, every reader that matches
it returns the value and ends behind the bytes. -/
theorem Plain.lands {x : Plain} {β : Type} {m : ParcelM β} {b : β}
    (hm : Item.ReadBy (.plain x) m b) (hacc : x.writer.script.Accepted) (h : Sees s p)
    (hat : p.At r) (hbytes : s.Has r x.writer.script.bytes) :
    Lands p m b (r + x.writer.script.bytes.length) := by
  cases hm with
  | scalarValue hm => exact h.lands_scalar hat hbytes hm
  | scalarRef hm old => exact h.lands_scalarRef hat hbytes hm old
  | @cString value hnul hlen =>
      rw [Plain.writer, cStringScript_bytes hnul hlen hacc] at hbytes ⊢
      exact h.lands_cString hnul hat hbytes
  | @string value hlen =>
      obtain ⟨hscript, hsmall⟩ := stringScript_bytes hlen hacc
      rw [Plain.writer, Writer.script, hscript] at hbytes ⊢
      exact (h.lands_text hat hsmall hbytes).map _
  | @stringRef value hlen =>
      obtain ⟨hscript, hsmall⟩ := stringScript_bytes hlen hacc
      rw [Plain.writer, Writer.script, hscript] at hbytes ⊢
      exact (h.lands_text hat hsmall hbytes).map _
  | @string16 value hlen =>
      obtain ⟨hscript, hsmall⟩ := string16Script_bytes hlen hacc
      rw [Plain.writer, Writer.script, hscript] at hbytes ⊢
      exact (h.lands_text hat hsmall hbytes).map _
  | @string16Ref value hlen =>
      obtain ⟨hscript, hsmall⟩ := string16Script_bytes hlen hacc
      rw [Plain.writer, Writer.script, hscript] at hbytes ⊢
      exact (h.lands_text hat hsmall hbytes).map _
  | @string8WithLength value hlen old =>
      obtain ⟨hscript, hsmall⟩ := stringScript_bytes hlen hacc
      rw [Plain.writer, Writer.script, Option.elim, hscript] at hbytes ⊢
      exact (h.lands_text hat hsmall hbytes).map _
  | @string16WithLength value hlen old =>
      obtain ⟨hscript, hsmall⟩ := string16Script_bytes hlen hacc
      rw [Plain.writer, Writer.script, Option.elim, hscript] at hbytes ⊢
      exact (h.lands_text hat hsmall hbytes).map _
  | @unpadBuffer data hne =>
      have hscript : (Writer.script (.buffer (some (Mem.ofList data)) data.length)).bytes =
          data ++ List.replicate (padOf data.length) 0 := by
        rw [Writer.script, Option.elim, Script.bytes_block, Mem.read_ofList]
      rw [Plain.writer, hscript] at hbytes ⊢
      exact h.lands_buffer hne hat hbytes
  | @vector k val hshort old =>
      obtain ⟨e, hd, hend⟩ := k.decode_of_has hshort hacc hbytes
      obtain ⟨hres, -, hnext⟩ := k.read_follows h hat hd old
      exact ⟨hres, hend ▸ hnext⟩

end Reading

end CUtils
