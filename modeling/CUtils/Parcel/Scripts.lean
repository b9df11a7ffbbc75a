import CUtils.Parcel.Pieces

/-!
# Writers as scripts

A `Piece` is a call that appends its bytes or nothing, with the need that decides which. A
`Script` performs a first piece and then others, and stops at the first that is refused. Every
public writer is one (`Writer.exec_eq`), and what can be said of scripts can be said of all of
them at once.

* `Script.wrote` — a script appends the bytes of the pieces it performed.
* `Script.result` — it succeeds exactly when the room meets all of its needs.
* `Script.atomic_iff` — when it fails, it has left the data alone exactly if its first need was
  refused.
-/

namespace CUtils

open StateRun ByteMemory Parcel

variable [Target]

/-! ## Pieces in sequence -/

structure Piece (c : Nat) where
  put : ParcelM Bool
  bytes : List UInt8
  need : Need
  appends : Appends c put bytes need

def Piece.lift {c c' : Nat} (x : Piece c) (h : c ≤ c') : Piece c' :=
  { x with appends := x.appends.mono h }

section Sequence

variable {c : Nat} {p : Parcel}

theorem putAll_result (xs : List (Piece c)) (hp : Sound p) (hs : Started c p) :
    ((xs.allM Piece.put).run p).1 = p.room.fits (xs.map Piece.need) := by
  induction xs generalizing p with
  | nil => rfl
  | cons x xs ih =>
      have hwrote := x.appends.wrote hp hs
      rw [allM_cons, run_andThen, List.map_cons, Room.fits, x.appends.room hp hs]
      by_cases hx : (x.put.run p).1 = true
      · rw [if_pos hx, if_pos hx]
        exact ih (hp.wrote hwrote) (hs.wrote hwrote)
      · rw [if_neg hx, if_neg hx]

theorem putAll_wrote (xs : List (Piece c)) (hp : Sound p) (hs : Started c p) :
    ∃ bs, Wrote p ((xs.allM Piece.put).run p).2 bs ∧
      (((xs.allM Piece.put).run p).1 = true → bs = xs.flatMap Piece.bytes) := by
  induction xs generalizing p with
  | nil => exact ⟨[], Wrote.refl hp, fun _ => rfl⟩
  | cons x xs ih =>
      have hwrote := x.appends.wrote hp hs
      rw [allM_cons, run_andThen]
      by_cases hx : (x.put.run p).1 = true
      · rw [if_pos hx] at hwrote ⊢
        obtain ⟨bs, hrest, heq⟩ := ih (hp.wrote hwrote) (hs.wrote hwrote)
        refine ⟨x.bytes ++ bs, hwrote.trans hrest, fun h => ?_⟩
        rw [heq h, List.flatMap_cons]
      · rw [if_neg hx] at hwrote ⊢
        exact ⟨[], hwrote, fun h => absurd h (by simp)⟩

end Sequence

/-! ## Scripts -/

structure Script where
  head : Piece 0
  start : Nat
  start_le : start ≤ 4
  tail : List (Piece start)
  /-- The pieces after the first may rely on what the first has put. -/
  starts : head.need = .refused ∨ head.bytes ≠ [] ∧ start ≤ head.bytes.length

namespace Script

def put (s : Script) : ParcelM Bool := s.head.put.andThen (s.tail.allM Piece.put)

def bytes (s : Script) : List UInt8 := s.head.bytes ++ s.tail.flatMap Piece.bytes

def needs (s : Script) : List Need := s.head.need :: s.tail.map Piece.need

def single (x : Piece 0) (h : x.need = .refused ∨ x.bytes ≠ []) : Script where
  head := x
  start := 0
  start_le := by decide
  tail := []
  starts := h.imp_right fun h => ⟨h, Nat.zero_le _⟩

variable {p : Parcel} (s : Script)

theorem put_single (x : Piece 0) (h : x.need = .refused ∨ x.bytes ≠ []) :
    (single x h).put = x.put := Prog.andThen_pure_true x.put

/-- The first piece, when it is performed, has put something. -/
theorem head_ne (hp : Sound p) (hok : (s.head.put.run p).1 = true) :
    s.head.bytes ≠ [] ∧ s.start ≤ s.head.bytes.length := by
  rcases s.starts with href | h
  · have hroom := s.head.appends.room hp (started_zero p)
    rw [href, if_pos hok] at hroom
    simp [Room.take] at hroom
  · exact h

theorem head_fits (hp : Sound p) : (s.head.put.run p).1 = p.room.fits [s.head.need] := by
  have hroom := s.head.appends.room hp (started_zero p)
  rw [Room.fits, hroom]
  by_cases hok : (s.head.put.run p).1 = true
  · rw [if_pos hok, hok]
    rfl
  · rw [if_neg hok]
    simpa using hok

theorem result (hp : Sound p) : (s.put.run p).1 = p.room.fits s.needs := by
  have hwrote := s.head.appends.wrote hp (started_zero p)
  rw [put, run_andThen, needs, Room.fits, s.head.appends.room hp (started_zero p)]
  by_cases hok : (s.head.put.run p).1 = true
  · rw [if_pos hok, if_pos hok]
    rw [if_pos hok] at hwrote
    exact putAll_result s.tail (hp.wrote hwrote)
      (hwrote.started.mono (s.head_ne hp hok).2)
  · rw [if_neg hok, if_neg hok]

/-- What a script has appended: nothing, or the bytes of its first piece and possibly more. -/
theorem wrote (hp : Sound p) :
    ∃ bs, Wrote p (s.put.run p).2 bs ∧ ((s.put.run p).1 = true → bs = s.bytes) ∧
      (bs = [] ↔ p.room.fits [s.head.need] = false) := by
  have hwrote := s.head.appends.wrote hp (started_zero p)
  rw [put, run_andThen, ← s.head_fits hp]
  by_cases hok : (s.head.put.run p).1 = true
  · obtain ⟨hne, hstart⟩ := s.head_ne hp hok
    rw [if_pos hok] at hwrote ⊢
    obtain ⟨bs, hrest, heq⟩ := putAll_wrote s.tail (hp.wrote hwrote) (hwrote.started.mono hstart)
    refine ⟨s.head.bytes ++ bs, hwrote.trans hrest, fun h => ?_, ?_⟩
    · rw [heq h, bytes]
    · simp [hne, hok]
  · rw [if_neg hok] at hwrote ⊢
    exact ⟨[], hwrote, fun h => absurd h (by simp), by simpa using hok⟩

end Script

/-- The write cursor, the size of the data and the data itself are as before. -/
structure SameData (p p' : Parcel) : Prop where
  cursor : p'.writeCursor = p.writeCursor
  size : p'.dataSize = p.dataSize
  bytes : p'.bytes.read 0 p.dataSize = p.bytes.read 0 p.dataSize

omit [Target] in
theorem Wrote.sameData_iff {p p' : Parcel} {bs : List UInt8} (hp : Sound p) (h : Wrote p p' bs) :
    SameData p p' ↔ bs = [] := by
  constructor
  · intro hsame
    have hcur := h.cursor
    rw [hsame.cursor] at hcur
    exact List.eq_nil_of_length_eq_zero (by omega)
  · rintro rfl
    exact ⟨h.cursor, h.size, (h.data_agree hp).read_eq (by omega)⟩

/-- A script that fails has left the data alone exactly if it failed at its first piece. -/
theorem Script.atomic_iff {p : Parcel} (hp : Sound p) (s : Script) :
    ((s.put.run p).1 = false → SameData p (s.put.run p).2) ↔
      (p.room.fits [s.head.need] = true → p.room.fits s.needs = true) := by
  obtain ⟨bs, hwrote, -, hnil⟩ := s.wrote hp
  rw [hwrote.sameData_iff hp, hnil, s.result hp]
  cases p.room.fits [s.head.need] <;> cases p.room.fits s.needs <;> simp

/-! ## The pieces of the public writers -/

def Piece.refused : Piece 0 := ⟨pure false, [], .refused, appends_false⟩

def Piece.word {α : Type} [Scalar α] (v : α) : Piece 0 :=
  ⟨write v, Scalar.encode v, wordNeed (Scalar.width α), write_appends v⟩

def Piece.block (data : Mem) (size : Nat) : Piece 0 :=
  ⟨writeBuffer (some data) size, _, blockNeed size, writeBuffer_appends data size⟩

/-- The `n` characters of a string and its terminator. -/
def Piece.chars (data : Mem) (n typeSize : Nat) (h0 : typeSize ≠ 0) (h4 : typeSize ≤ 4) : Piece 0 :=
  ⟨writeBufferAddTerminator (some data) ((n + 1) * typeSize) typeSize, _, _,
    terminated_appends data h0 (Nat.le_mul_of_pos_left _ (Nat.succ_pos n)) h4⟩

def Piece.pad (size : Nat) : Piece 4 :=
  ⟨_, _, _, pad_appends size⟩

theorem Piece.word_ne {α : Type} [Scalar α] (v : α) : (Piece.word v).bytes ≠ [] := by
  refine List.ne_nil_of_length_pos ?_
  rw [Piece.word, Scalar.length_encode]
  exact Scalar.width_pos

theorem Piece.block_ne (data : Mem) (size : Nat) :
    (Piece.block data size).need = .refused ∨ (Piece.block data size).bytes ≠ [] := by
  by_cases h0 : size = 0
  · exact Or.inl (if_pos (Or.inl h0))
  · refine Or.inr (List.ne_nil_of_length_pos ?_)
    rw [Piece.block, List.length_append, Mem.length_read]
    omega

namespace Script

def refused : Script := single .refused (Or.inl rfl)

def word {α : Type} [Scalar α] (v : α) : Script := single (.word v) (Or.inr (Piece.word_ne v))

def block (data : Mem) (size : Nat) : Script := single (.block data size) (Piece.block_ne data size)

/-- A 32-bit length or count, and the pieces it announces. -/
def counted (n : BitVec 32) (tail : List (Piece 4)) : Script where
  head := .word n
  start := 4
  start_le := le_rfl
  tail := tail
  starts := Or.inr ⟨Piece.word_ne n, (Scalar.length_encode n).ge⟩

@[simp] theorem put_refused : refused.put = pure false := put_single _ _

@[simp] theorem put_word {α : Type} [Scalar α] (v : α) : (word v).put = write v := put_single _ _

@[simp] theorem put_block (data : Mem) (size : Nat) :
    (block data size).put = writeBuffer (some data) size := put_single _ _

theorem put_counted (n : BitVec 32) (tail : List (Piece 4)) :
    (counted n tail).put = (write n).andThen (tail.allM Piece.put) := rfl

/-- The length, the characters and the terminator of a string. -/
def string (data : Mem) (dataLength : BitVec 32) (typeSize : Nat) (h0 : typeSize ≠ 0)
    (h4 : typeSize ≤ 4) : Script :=
  counted dataLength [(Piece.chars data dataLength.toNat typeSize h0 h4).lift (Nat.zero_le 4)]

theorem put_string (data : Mem) (dataLength : BitVec 32) (typeSize : Nat) (h0 : typeSize ≠ 0)
    (h4 : typeSize ≤ 4) :
    (string data dataLength typeSize h0 h4).put = writeLengthAndChars data dataLength typeSize := by
  rw [string, put_counted, allM_cons, allM_nil, Prog.andThen_pure_true, writeLengthAndChars,
    unless_eq_andThen]
  rfl

/-- A script as a list of pieces, for use inside a vector. -/
def pieces (s : Script) : List (Piece 4) :=
  s.head.lift (Nat.zero_le 4) :: s.tail.map fun x => x.lift s.start_le

theorem allM_pieces (s : Script) : s.pieces.allM Piece.put = s.put := by
  rw [pieces, allM_cons, allM_map]
  rfl

/-- A count, the elements and one padding for all of them; `size` is the size of an element. -/
def vector {α : Type} (size : Nat) (elem : α → Script) (val : List α) : Script :=
  if val.length > 2147483647 then refused
  else
    counted (BitVec.ofNat 32 val.length)
      ((val.flatMap fun v => (elem v).pieces) ++ [Piece.pad (val.length * size)])

theorem put_vector {α : Type} {size : Nat} (hsize : size ≤ 24) {writeElem : α → ParcelM Bool}
    {elem : α → Script} (helem : ∀ v, (elem v).put = writeElem v) (val : List α) :
    (vector size elem val).put = writeVector size writeElem val := by
  rw [vector, writeVector]
  by_cases hlen : val.length > 2147483647
  · rw [if_pos hlen, if_pos hlen, put_refused]
  · rw [if_neg hlen, if_neg hlen, put_counted, allM_append, allM_flatMap]
    have hmul : val.length * size ≤ 2147483647 * 24 :=
      Nat.mul_le_mul (Nat.le_of_not_lt hlen) hsize
    have hpad : getPadSize (szMul val.length size) = padOf (val.length * size) := by
      rw [szMul_of_lt (by simp only [sizeLimit]; omega),
        getPadSize_eq (by simp only [sizeLimit]; omega)]
    have helems : (fun v => (elem v).pieces.allM Piece.put) = writeElem :=
      funext fun v => (allM_pieces (elem v)).trans (helem v)
    simp only [hpad, unless_eq_andThen, helems, writeInt32]
    rw [allM_cons, allM_nil, Prog.andThen_pure_true]
    rfl

/-- The script of a string whose characters take `typeSize` bytes; `bad` is the test of its
length. -/
def checked (bad : Prop) [Decidable bad] (data : Mem) (dataLength : BitVec 32) (typeSize : Nat)
    (h0 : typeSize ≠ 0) (h4 : typeSize ≤ 4) : Script :=
  if bad then refused else string data dataLength typeSize h0 h4

theorem put_checked (bad : Prop) [Decidable bad] (data : Mem) (dataLength : BitVec 32)
    (typeSize : Nat) (h0 : typeSize ≠ 0) (h4 : typeSize ≤ 4) :
    (checked bad data dataLength typeSize h0 h4).put =
      if bad then pure false else writeLengthAndChars data dataLength typeSize := by
  rw [checked]
  by_cases h : bad
  · rw [if_pos h, if_pos h, put_refused]
  · rw [if_neg h, if_neg h, put_string]

/-- A block with a terminator. One of more than four bytes is refused after the data before it
has been copied, if there is any. -/
def terminated (data : Mem) (size typeSize : Nat) : Script :=
  if hargs : typeSize = 0 ∨ size < typeSize ∨ sizeLimit ≤ size + 3 then refused
  else if h4 : typeSize ≤ 4 then
    single ⟨_, _, _, @terminated_appends _ data size typeSize (by omega)
      (by omega) h4⟩ (Or.inr (by
        refine List.ne_nil_of_length_pos ?_
        simp only [List.length_append, List.length_replicate]
        omega))
  else if hsize : size = typeSize then
    single ⟨_, _, _, only_terminator_appends data h4 (by omega)⟩ (Or.inl rfl)
  else
    { head := ⟨_, _, _, unterminated_appends data (size + padOf size) (size - typeSize)⟩
      start := 0
      start_le := by decide
      tail := [.refused]
      starts := Or.inr ⟨List.ne_nil_of_length_pos (by rw [Mem.length_read]; omega),
        Nat.zero_le _⟩ }

theorem put_terminated (data : Mem) (size typeSize : Nat) :
    (terminated data size typeSize).put = writeBufferAddTerminator (some data) size typeSize := by
  unfold terminated
  by_cases hargs : typeSize = 0 ∨ size < typeSize ∨ sizeLimit ≤ size + 3
  · rw [dif_pos hargs, put_refused, writeBufferAddTerminator_refused data hargs]
  · rw [dif_neg hargs]
    by_cases h4 : typeSize ≤ 4
    · rw [dif_pos h4, put_single]
    · rw [dif_neg h4]
      by_cases hsize : size = typeSize
      · rw [dif_pos hsize, put_single]
        subst hsize
        rfl
      · rw [dif_neg hsize, writeBufferAddTerminator_eq data (by omega) (by omega) (by omega),
          if_pos (by omega), put, allM_cons, allM_nil, Prog.andThen_pure_true, Prog.andThen_assoc]
        rfl

end Script

/-! ## The public writers -/

def ScalarKind.script : (k : ScalarKind) → k.Elem → Script
  | bool, v => .word (boolWord v)
  | boolUnaligned, v => .word v
  | int8, v => .word (v.signExtend 32)
  | int8Unaligned, v => .word v
  | int16, v => .word (v.signExtend 32)
  | int16Unaligned, v => .word v
  | int32, v => .word v
  | int64, v => .word v
  | uint8, v => .word (v.setWidth 32)
  | uint8Unaligned, v => .word v
  | uint16, v => .word (v.setWidth 32)
  | uint16Unaligned, v => .word v
  | uint32, v => .word v
  | uint64, v => .word v
  | float, v => .word v
  | double, v => .word v
  | pointer, v => .word v

theorem ScalarKind.put_script (k : ScalarKind) (v : k.Elem) : (k.script v).put = k.write v := by
  cases k <;> exact Script.put_word _

def stringScript (value : List Char8) : Script :=
  let dataLength := BitVec.ofNat 32 value.length
  .checked (dataLength.toInt < 0 ∨ dataLength.toInt ≥ int32Max) (Mem.ofList value) dataLength 1
    (by decide) (by decide)

def string16Script (value : List Char16) : Script :=
  let dataLength := BitVec.ofNat 32 value.length
  .checked (dataLength.toInt < 0 ∨ dataLength.toInt > int32Max / 2 - 1)
    (Mem.ofList (charBytes value)) dataLength 2 (by decide) (by decide)

theorem put_stringScript (value : List Char8) : (stringScript value).put = writeString value :=
  Script.put_checked _ _ _ _ _ _

theorem put_string16Script (value : List Char16) :
    (string16Script value).put = writeString16 value :=
  Script.put_checked _ _ _ _ _ _

def VectorKind.script : (k : VectorKind) → List k.Elem → Script
  | bool => .vector 4 fun v => .word (boolWord v)
  | int8 => .vector 1 Script.word
  | int16 => .vector 4 fun v => .word (BitVec.signExtend 32 v)
  | int32 => .vector 4 Script.word
  | int64 => .vector 8 Script.word
  | uint8 => .vector 1 Script.word
  | uint16 => .vector 2 Script.word
  | uint32 => .vector 4 Script.word
  | uint64 => .vector 8 Script.word
  | float => .vector 4 Script.word
  | double => .vector 8 Script.word
  | string => .vector sizeofString stringScript
  | string16 => .vector sizeofString string16Script

theorem VectorKind.put_script (k : VectorKind) (val : List k.Elem) :
    (k.script val).put = k.write val := by
  cases k with
  | string => exact Script.put_vector (by decide) put_stringScript val
  | string16 => exact Script.put_vector (by decide) put_string16Script val
  | _ => exact Script.put_vector (by decide) (fun v => Script.put_word _) val

def Writer.script : Writer → Script
  | scalar k v => k.script v
  | buffer data size | unpadBuffer data size => data.elim .refused fun data => .block data size
  | bufferAddTerminator data size typeSize =>
      data.elim .refused fun data => .terminated data size typeSize
  | cString value =>
      value.elim .refused fun value =>
        let dataLength := BitVec.ofNat 32 (strlen value)
        if dataLength.toInt < 0 ∨ dataLength.toInt ≥ int32Max then .refused
        else .block (Mem.ofList value) (dataLength.toNat + 1)
  | string value => stringScript value
  | string16 value => string16Script value
  | string8WithLength value => value.elim (.word (-1 : BitVec 32)) stringScript
  | string16WithLength value => value.elim (.word (-1 : BitVec 32)) string16Script
  | vector k val => k.script val

/-- **Every public writer is its script.** -/
theorem Writer.exec_eq (w : Writer) : w.exec = w.script.put := by
  cases w with
  | scalar k v => exact (k.put_script v).symm
  | buffer data size | unpadBuffer data size =>
      cases data with
      | none => exact Script.put_refused.symm
      | some data => exact (Script.put_block data size).symm
  | bufferAddTerminator data size typeSize =>
      cases data with
      | none => exact Script.put_refused.symm
      | some data => exact (Script.put_terminated data size typeSize).symm
  | cString value =>
      cases value with
      | none => exact Script.put_refused.symm
      | some value =>
          simp only [Writer.exec, writeCString, Writer.script, Option.elim]
          split
          · exact Script.put_refused.symm
          · exact (Script.put_block _ _).symm
  | string value => exact (put_stringScript value).symm
  | string16 value => exact (put_string16Script value).symm
  | string8WithLength value =>
      cases value with
      | none => exact (Script.put_word _).symm
      | some value => exact (put_stringScript value).symm
  | string16WithLength value =>
      cases value with
      | none => exact (Script.put_word _).symm
      | some value => exact (put_string16Script value).symm
  | vector k val => exact (k.put_script val).symm

/-- **What a writer does**, whatever the state of the allocations: it appends some bytes, all of
its own when it succeeds. -/
theorem Writer.wrote {p : Parcel} (hp : Sound p) (w : Writer) :
    ∃ bs, Wrote p (w.exec.run p).2 bs ∧ ((w.exec.run p).1 = true → bs = w.script.bytes) := by
  obtain ⟨bs, hwrote, hbytes, -⟩ := w.script.wrote hp
  rw [w.exec_eq]
  exact ⟨bs, hwrote, hbytes⟩

end CUtils
