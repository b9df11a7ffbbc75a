import CUtils.Parcel.VectorReads
import Mathlib.Data.List.TakeWhile

/-!
# Items and their bytes

An item is one value written by one call, and the bytes it leaves in the parcel are those of its
script. This module is about these bytes: wherever they stand in a source, the decoder of the
item finds the value in them and ends where they end (`ScalarKind.script`, `stringScript`,
`VectorKind.script`). What a script leaves when an argument was refused is of no interest; a
script that has been performed to its end was not refused (`Script.accepted`).
-/

namespace CUtils

open StateRun ByteMemory Parcel

variable [Target]

/-! ## Scripts that were not refused -/

theorem Room.not_refused {ns : List Need} {r : Room} (h : r.fits ns = true) :
    Need.refused ∉ ns := by
  induction ns generalizing r with
  | nil => simp
  | cons n ns ih =>
      obtain ⟨r', htake, hrest⟩ := (Room.fits_cons r n ns).1 h
      rw [List.mem_cons, not_or]
      refine ⟨fun hn => ?_, ih hrest⟩
      subst hn
      simp [Room.take] at htake

namespace Script

/-- No argument was refused. -/
def Accepted (s : Script) : Prop := Need.refused ∉ s.needs

theorem accepted {p : Parcel} (hp : Sound p) {s : Script} (h : (s.put.run p).1 = true) :
    s.Accepted := Room.not_refused ((s.result hp).symm.trans h)

theorem not_accepted_refused : ¬ refused.Accepted := fun h => h (by simp [needs, refused, single,
  Piece.refused])

@[simp] theorem bytes_word {α : Type} [Scalar α] (v : α) : (word v).bytes = Scalar.encode v :=
  List.append_nil _

theorem bytes_block (data : Mem) (size : Nat) :
    (block data size).bytes = data.read 0 size ++ List.replicate (padOf size) 0 :=
  List.append_nil _

theorem bytes_counted (n : BitVec 32) (tail : List (Piece 4)) :
    (counted n tail).bytes = Scalar.encode n ++ tail.flatMap Piece.bytes := rfl

theorem bytes_pieces (s : Script) : s.pieces.flatMap Piece.bytes = s.bytes := by
  rw [pieces, List.flatMap_cons, List.flatMap_map, bytes]
  rfl

theorem needs_pieces (s : Script) : s.pieces.map Piece.need = s.needs := by
  rw [pieces, List.map_cons, List.map_map, needs]
  rfl

theorem accepted_vector {α : Type} {size : Nat} {elem : α → Script} {val : List α}
    (h : (vector size elem val).Accepted) :
    val.length < 2 ^ 31 ∧ (∀ v ∈ val, (elem v).Accepted) ∧
      (vector size elem val).bytes = Scalar.encode (BitVec.ofNat 32 val.length) ++
        ((val.flatMap fun v => (elem v).bytes) ++
          List.replicate (padOf (val.length * size)) 0) := by
  by_cases hlen : val.length > 2147483647
  · rw [vector, if_pos hlen] at h
    exact absurd h not_accepted_refused
  · rw [vector, if_neg hlen] at h ⊢
    refine ⟨by omega, fun v hv href => h ?_, ?_⟩
    · rw [counted, needs, List.mem_cons]
      refine Or.inr ?_
      rw [List.map_append, List.mem_append, List.map_flatMap, List.mem_flatMap]
      exact Or.inl ⟨v, hv, by rwa [needs_pieces]⟩
    · rw [bytes_counted, List.flatMap_append, List.flatMap_assoc]
      congr 2
      · exact congrArg (List.flatMap · val) (funext fun v => bytes_pieces (elem v))
      · exact List.append_nil _

end Script

/-! ## Strings -/

section Strings

variable {α : Type} [Scalar α] [DecidableEq α] {s : Source} {r : Nat}

omit [Target] [DecidableEq α] in
theorem chars_charBytes (l : List α) : chars l.length (charBytes l) = l := by
  induction l with
  | nil => rfl
  | cons a as ih =>
      have hdrop : ∀ i, (charBytes (a :: as)).drop ((i + 1) * Scalar.width α) =
          (charBytes as).drop (i * Scalar.width α) := by
        intro i
        rw [charBytes, List.flatMap_cons, Nat.succ_mul, Nat.add_comm, ← List.drop_drop,
          List.drop_left' (Scalar.length_encode a)]
        rfl
      have htake : (charBytes (a :: as)).take (Scalar.width α) = Scalar.encode a := by
        rw [charBytes, List.flatMap_cons, List.take_left' (Scalar.length_encode a)]
      rw [chars, List.length_cons, List.range_succ_eq_map, List.map_cons, Nat.zero_mul,
        List.drop_zero, htake, Scalar.decode_encode, List.map_map]
      congr 1
      refine Eq.trans (List.map_congr_left fun i _ => ?_) ih
      simp only [Function.comp, Nat.succ_eq_add_one, hdrop]

omit [Target] in
theorem charsOf_charBytes (value : List α) :
    charsOf value.length (charBytes (value ++ [Scalar.zero])) = some value := by
  have hchars := chars_charBytes (value ++ [(Scalar.zero : α)])
  rw [List.length_append, List.length_singleton] at hchars
  rw [charsOf, hchars]
  simp

omit [Target] [DecidableEq α] in
theorem length_charBytes (l : List α) : (charBytes l).length = l.length * Scalar.width α := by
  induction l with
  | nil => simp [charBytes]
  | cons a as ih =>
      have hcons : charBytes (a :: as) = Scalar.encode a ++ charBytes as := List.flatMap_cons
      rw [hcons, List.length_append, ih, Scalar.length_encode, List.length_cons, Nat.succ_mul,
        Nat.add_comm]

/-- The bytes of a string: its length, its characters with the terminator, and padding. -/
def textBytes (value : List α) : List UInt8 :=
  Scalar.encode (BitVec.ofNat 32 value.length) ++ (charBytes (value ++ [Scalar.zero]) ++
    List.replicate (padOf ((value.length + 1) * Scalar.width α)) 0)

omit [Target] in
theorem text_of_has {value : List α} (hlen : (value.length : Int) < int32Max)
    (h : s.Has r (textBytes value)) : text s r = some (value, r + (textBytes value).length) := by
  have hn : (BitVec.ofNat 32 value.length).toNat = value.length := by
    rw [BitVec.toNat_ofNat, Nat.mod_eq_of_lt (by simp only [int32Max] at hlen; omega)]
  have hint : (BitVec.ofNat 32 value.length).toInt = value.length := by
    rw [BitVec.toInt_eq_toNat_of_lt (by rw [hn]; simp only [int32Max] at hlen; omega), hn]
  have hsize : (charBytes (value ++ [(Scalar.zero : α)])).length =
      (value.length + 1) * Scalar.width α := by
    rw [length_charBytes, List.length_append, List.length_singleton]
  obtain ⟨hcount, hrest⟩ := Source.has_append h
  obtain ⟨hchars, -⟩ := Source.has_append hrest
  rw [Scalar.length_encode] at hchars
  rw [Source.Has, hsize] at hchars
  have hword := Source.word_of_has hcount
  rw [text_of hword (by rw [hint]; omega) (by rw [hn]; exact hchars)
    (by rw [hn]; exact charsOf_charBytes value), hn]
  simp only [textBytes, List.length_append, hsize, Scalar.length_encode, List.length_replicate,
    Nat.add_assoc]

omit [DecidableEq α] in
/-- What the string writers append, when the length has not wrapped around. -/
theorem bytes_string {value : List α} (hlen : value.length < 2 ^ 32)
    (hzero : Scalar.encode (Scalar.zero : α) = List.replicate (Scalar.width α) 0)
    (h0 : Scalar.width α ≠ 0) (h4 : Scalar.width α ≤ 4) :
    (Script.string (Mem.ofList (charBytes value)) (BitVec.ofNat 32 value.length) (Scalar.width α)
      h0 h4).bytes = textBytes value := by
  have hn : (BitVec.ofNat 32 value.length).toNat = value.length := by
    rw [BitVec.toNat_ofNat, Nat.mod_eq_of_lt hlen]
  have hread : (Mem.ofList (charBytes value)).read 0
      ((value.length + 1) * Scalar.width α - Scalar.width α) = charBytes value := by
    rw [Nat.succ_mul, Nat.add_sub_cancel, ← length_charBytes, Mem.read_ofList]
  have hchars : charBytes (value ++ [(Scalar.zero : α)]) =
      charBytes value ++ List.replicate (Scalar.width α) 0 := by
    rw [charBytes, List.flatMap_append, List.flatMap_singleton, hzero]
    rfl
  rw [Script.string, Script.bytes_counted, List.flatMap_singleton, textBytes, hchars]
  change _ ++ ((Mem.ofList (charBytes value)).read 0
      (((BitVec.ofNat 32 value.length).toNat + 1) * Scalar.width α - Scalar.width α) ++
    List.replicate (Scalar.width α) 0 ++
    List.replicate (padOf (((BitVec.ofNat 32 value.length).toNat + 1) * Scalar.width α)) 0) = _
  rw [hn, hread]

omit [DecidableEq α] in
/-- A string that was written has the bytes of a string, and is short enough to be read. -/
theorem bytes_checked {value : List α} (hlen : value.length < 2 ^ 32)
    (hzero : Scalar.encode (Scalar.zero : α) = List.replicate (Scalar.width α) 0)
    {bad : Prop} [Decidable bad] {h0 : Scalar.width α ≠ 0} {h4 : Scalar.width α ≤ 4}
    (hbad : ¬ bad → ¬ (BitVec.ofNat 32 value.length).toInt < 0 ∧
      (BitVec.ofNat 32 value.length).toInt < int32Max)
    (h : (Script.checked bad (Mem.ofList (charBytes value)) (BitVec.ofNat 32 value.length)
      (Scalar.width α) h0 h4).Accepted) :
    (Script.checked bad (Mem.ofList (charBytes value)) (BitVec.ofNat 32 value.length)
      (Scalar.width α) h0 h4).bytes = textBytes value ∧ (value.length : Int) < int32Max := by
  unfold Script.checked at *
  by_cases hb : bad
  · rw [if_pos hb] at h
    exact absurd h Script.not_accepted_refused
  · obtain ⟨hneg, hsmall⟩ := hbad hb
    have hnat := toNat_lt_of_toInt_nonneg hneg
    rw [BitVec.toInt_eq_toNat_of_lt (by omega), BitVec.toNat_ofNat, Nat.mod_eq_of_lt hlen] at hsmall
    rw [if_neg hb]
    exact ⟨bytes_string hlen hzero h0 h4, hsmall⟩

end Strings

theorem stringScript_bytes {value : List Char8} (hlen : value.length < 2 ^ 32)
    (h : (stringScript value).Accepted) :
    (stringScript value).bytes = textBytes value ∧ (value.length : Int) < int32Max := by
  have hchars : charBytes value = value := List.flatMap_singleton' value
  have hscript : stringScript value =
      .checked ((BitVec.ofNat 32 value.length).toInt < 0 ∨
          (BitVec.ofNat 32 value.length).toInt ≥ int32Max)
        (Mem.ofList (charBytes value)) (BitVec.ofNat 32 value.length) (Scalar.width Char8)
        (by decide) (by decide) := by
    rw [hchars]
    rfl
  rw [hscript] at h ⊢
  exact bytes_checked hlen rfl (fun hb => by omega) h

theorem string16Script_bytes {value : List Char16} (hlen : value.length < 2 ^ 32)
    (h : (string16Script value).Accepted) :
    (string16Script value).bytes = textBytes value ∧ (value.length : Int) < int32Max :=
  bytes_checked (α := Char16) hlen rfl (fun hb => by simp only [int32Max] at *; omega) h

/-- A C string that was written stands there with its terminator. -/
theorem cStringScript_bytes {value : List Char8} (hnul : 0 ∉ value) (hlen : value.length < 2 ^ 32)
    (h : (Writer.script (.cString (some value))).Accepted) :
    (Writer.script (.cString (some value))).bytes =
      value ++ [0] ++ List.replicate (padOf (value.length + 1)) 0 := by
  have hstrlen : strlen value = value.length := by
    rw [strlen, List.takeWhile_eq_self_iff.2]
    intro c hc
    simpa using fun h0 : c = 0 => hnul (h0 ▸ hc)
  have hread : (Mem.ofList value).read 0 (value.length + 1) = value ++ [0] := by
    rw [Mem.read_add, Mem.read_ofList]
    simp [Mem.read, Mem.ofList]
  simp only [Writer.script, Option.elim, hstrlen, BitVec.toNat_ofNat, Nat.mod_eq_of_lt hlen] at h ⊢
  split at h
  · exact absurd h Script.not_accepted_refused
  · rename_i hbad
    rw [if_neg hbad, Script.bytes_block, hread]

/-! ## Words -/

omit [Target] in
theorem boolWord_ne_zero (v : Bool) : (boolWord v != 0) = v := by
  cases v <;> rfl

omit [Target] in
theorem setWidth_signExtend {w : Nat} (v : BitVec w) (h : w ≤ 32) :
    (v.signExtend 32).setWidth w = v := by
  ext i hi
  rw [BitVec.getElem_setWidth, BitVec.getLsbD_signExtend]
  simp [hi]
  omega

/-! ## Vectors -/

namespace VectorKind

def elemScript : (k : VectorKind) → k.Elem → Script
  | bool => fun v => .word (boolWord v)
  | int16 => fun v => .word (BitVec.signExtend 32 v)
  | int8 | uint8 => Script.word
  | uint16 => Script.word
  | int32 | uint32 | float => Script.word
  | int64 | uint64 | double => Script.word
  | string => stringScript
  | string16 => string16Script

theorem script_eq_vector (k : VectorKind) : k.script = Script.vector k.size k.elemScript := by
  cases k <;> rfl

/-- The length of a string does not wrap around when it is written. -/
def Short : (k : VectorKind) → k.Elem → Prop
  | string => fun v => v.length < 2 ^ 32
  | string16 => fun v => v.length < 2 ^ 32
  | _ => fun _ => True

variable {s : Source} {r : Nat}

theorem elem_of_has (k : VectorKind) {v : k.Elem} (hshort : k.Short v)
    (hacc : (k.elemScript v).Accepted) (h : s.Has r (k.elemScript v).bytes) :
    k.elem s r = some (v, r + (k.elemScript v).bytes.length) := by
  cases k with
  | bool =>
      rw [elemScript, Script.bytes_word] at h ⊢
      have hmap := Decoder.map_of (f := fun w => w != 0) (Source.word_of_has h)
      rwa [boolWord_ne_zero, ← Scalar.length_encode (boolWord v)] at hmap
  | int16 =>
      rw [elemScript, Script.bytes_word] at h ⊢
      have hmap := Decoder.map_of (f := BitVec.setWidth 16) (Source.word_of_has h)
      rwa [setWidth_signExtend v (by decide), ← Scalar.length_encode (BitVec.signExtend 32 v)]
        at hmap
  | string =>
      obtain ⟨hbytes, hlen⟩ := stringScript_bytes hshort hacc
      rw [elemScript, hbytes] at h ⊢
      exact text_of_has hlen h
  | string16 =>
      obtain ⟨hbytes, hlen⟩ := string16Script_bytes hshort hacc
      rw [elemScript, hbytes] at h ⊢
      exact text_of_has hlen h
  | _ =>
      rw [elemScript, Script.bytes_word] at h ⊢
      rw [Scalar.length_encode]
      exact Source.word_of_has h

/-- A vector that was written stands where its bytes do. -/
theorem decode_of_has (k : VectorKind) {val : List k.Elem} (hshort : ∀ v ∈ val, k.Short v)
    (hacc : (k.script val).Accepted) (h : s.Has r (k.script val).bytes) :
    ∃ e, k.decode s r = some (val, e) ∧
      e + padOf (val.length * k.size) = r + (k.script val).bytes.length := by
  rw [k.script_eq_vector] at hacc h ⊢
  obtain ⟨hlen, helems, hbytes⟩ := Script.accepted_vector hacc
  rw [hbytes] at h ⊢
  have hn : (BitVec.ofNat 32 val.length).toNat = val.length := by
    rw [BitVec.toNat_ofNat, Nat.mod_eq_of_lt (by omega)]
  have hint : (BitVec.ofNat 32 val.length).toInt = val.length := by
    rw [BitVec.toInt_eq_toNat_of_lt (by rw [hn]; omega), hn]
  obtain ⟨hcount, hrest⟩ := Source.has_append h
  obtain ⟨hvals, -⟩ := Source.has_append hrest
  have hmany := Decoder.many_of_has
    (fun v hv r h => k.elem_of_has (hshort v hv) (helems v hv) h) hvals
  rw [← hn, Scalar.length_encode] at hmany
  refine ⟨_, Decoder.counted_of (Source.word_of_has hcount) (by rw [hint]; omega) hmany, ?_⟩
  simp only [List.length_append, Scalar.length_encode, List.length_replicate, Nat.add_assoc]

end VectorKind

/-! ## Items -/

/-- A remote object whose `Marshalling`, when it succeeds, writes one flat object. -/
structure FlatObject where
  id : Nat
  behavior : BitVec 8
  marshalling : ParcelM Bool
  flat : List UInt8
  length_flat : flat.length = flatSize
  writes : ∀ {p}, Sound p → (marshalling.run p).1 = true → Wrote p (marshalling.run p).2 flat

def FlatObject.parcelable (o : FlatObject) : Parcelable where
  id := o.id
  asRemote := true
  behavior := o.behavior
  marshalling := o.marshalling

/-- A value for one of the writers, other than an object. A C string has no NUL, and the length
of no string wraps around when it is converted to 32 bits. -/
inductive Plain
  | scalar (k : ScalarKind) (v : k.Elem)
  | cString (value : List Char8) (hnul : 0 ∉ value) (hlen : value.length < 2 ^ 32)
  | string (value : List Char8) (hlen : value.length < 2 ^ 32)
  | string16 (value : List Char16) (hlen : value.length < 2 ^ 32)
  | string8WithLength (value : List Char8) (hlen : value.length < 2 ^ 32)
  | string16WithLength (value : List Char16) (hlen : value.length < 2 ^ 32)
  | buffer (data : List UInt8) (hne : data ≠ [])
  | vector (k : VectorKind) (val : List k.Elem) (hshort : ∀ v ∈ val, k.Short v)

def Plain.writer : Plain → Writer
  | scalar k v => .scalar k v
  | cString value _ _ => .cString (some value)
  | string value _ => .string value
  | string16 value _ => .string16 value
  | string8WithLength value _ => .string8WithLength (some value)
  | string16WithLength value _ => .string16WithLength (some value)
  | buffer data _ => .buffer (some (Mem.ofList data)) data.length
  | vector k val _ => .vector k val

inductive Item
  | plain (x : Plain)
  | object (o : FlatObject)

def Item.write : Item → ParcelM Bool
  | plain x => x.writer.exec
  | object o => writeRemoteObject (some o.parcelable)

/-- The bytes an item that was written has in the parcel. -/
def Item.bytes : Item → List UInt8
  | plain x => x.writer.script.bytes
  | object o => o.flat

/-- `CheckOffsets()`, and then `ReadBuffer` of a flat object without validation. -/
def readFlat : ParcelM (Bool × Option (List UInt8)) := do
  let listed ← checkOffsets
  let buffer ← readBufferWith flatSize false
  return (listed, buffer)

/-- `i.ReadBy m b`: the reader `m` matches the writer of `i`, and `b` is what it has to return.
What an out-parameter held before does not matter. -/
inductive Item.ReadBy : Item → {β : Type} → ParcelM β → β → Prop
  | scalarValue {k : ScalarKind} {v : k.Elem} {m : ParcelM k.Elem} (h : k.valueReader = some m) :
      ReadBy (.plain (.scalar k v)) m v
  | scalarRef {k : ScalarKind} {v : k.Elem} {m : k.Elem → ParcelM (Bool × k.Elem)}
      (h : k.refReader = some m) (old : k.Elem) : ReadBy (.plain (.scalar k v)) (m old) (true, v)
  | cString {value hnul hlen} : ReadBy (.plain (.cString value hnul hlen)) readCString (some value)
  | string {value hlen} : ReadBy (.plain (.string value hlen)) readString value
  | stringRef {value hlen} : ReadBy (.plain (.string value hlen)) readStringRef (true, value)
  | string16 {value hlen} : ReadBy (.plain (.string16 value hlen)) readString16 value
  | string16Ref {value hlen} : ReadBy (.plain (.string16 value hlen)) readString16Ref (true, value)
  | string8WithLength {value hlen} (old : BitVec 32) :
      ReadBy (.plain (.string8WithLength value hlen)) (readString8WithLength old)
        (value, BitVec.ofNat 32 value.length)
  | string16WithLength {value hlen} (old : BitVec 32) :
      ReadBy (.plain (.string16WithLength value hlen)) (readString16WithLength old)
        (value, BitVec.ofNat 32 value.length)
  | unpadBuffer {data hne} :
      ReadBy (.plain (.buffer data hne)) (readUnpadBuffer data.length) (some data)
  | vector {k : VectorKind} {val : List k.Elem} {hshort} (old : List k.Elem) :
      ReadBy (.plain (.vector k val hshort)) (k.read (some old)) (true, some val)
  | object {o : FlatObject} : ReadBy (.object o) readFlat (true, some o.flat)

end CUtils
