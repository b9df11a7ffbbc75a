import CUtils.Parcel.Invariant

/-!
# The length guards of the string writers

A string writer copies the length of its argument, a `size_t`, into an `int32_t` and tests the
copy. So it tests the remainder of the length by 2³², and a length whose remainder is in range
passes whatever it is itself: the writer then announces the remainder.

`length_guard_iff` says of every parcel and every argument when the guard does its work.
-/

namespace CUtils

open StateRun ByteMemory Parcel

variable [Target]

/-- The string writers, with an argument that is not null. -/
inductive TextWriter
  | cString (value : List Char8)
  | string (value : List Char8)
  | string16 (value : List Char16)
  | string8WithLength (value : List Char8)
  | string16WithLength (value : List Char16)

namespace TextWriter

def writer : TextWriter → Writer
  | cString value => .cString (some value)
  | string value => .string value
  | string16 value => .string16 value
  | string8WithLength value => .string8WithLength (some value)
  | string16WithLength value => .string16WithLength (some value)

/-- The length as the caller has it. -/
def length : TextWriter → Nat
  | cString value => strlen value
  | string value | string8WithLength value => value.length
  | string16 value | string16WithLength value => value.length

/-- The largest length the format has: below `INT32_MAX`, or up to `INT32_MAX / 2 - 1`. -/
def limit : TextWriter → Nat
  | cString _ | string _ | string8WithLength _ => 2147483646
  | string16 _ | string16WithLength _ => 1073741822

/-- What the bytes written say about the length: the 32-bit word in front of a string, the size of
the block of a C string. -/
def Announces (t : TextWriter) (p p' : Parcel) (n : Nat) : Prop :=
  match t with
  | cString _ => p'.writeCursor = p.writeCursor + (n + 1) + padOf (n + 1)
  | _ => (Scalar.decode (p'.bytes.read p.writeCursor 4) : BitVec 32).toNat = n

/-- The first thing the writer asks for once the guard has let it pass: room for the length, or
for the block. -/
def firstNeed : TextWriter → Need
  | t@(cString _) => blockNeed (t.length % 2 ^ 32 + 1)
  | _ => wordNeed 4

end TextWriter

/-- The guard rejects what the format cannot hold: a writer that succeeds was given a length in
range and announces it, and for any other length nothing is written. -/
structure LengthGuarded (p : Parcel) (t : TextWriter) : Prop where
  accepted : (t.writer.exec.run p).1 = true →
    t.length ≤ t.limit ∧ t.Announces p (t.writer.exec.run p).2 t.length
  rejected : ¬ t.length ≤ t.limit →
    (t.writer.exec.run p).1 = false ∧ SameData p (t.writer.exec.run p).2

/-! ## The test -/

omit [Target] in
theorem guard8_iff (n : Nat) :
    ((BitVec.ofNat 32 n).toInt < 0 ∨ (BitVec.ofNat 32 n).toInt ≥ int32Max) ↔
      2147483646 < n % 2 ^ 32 := by
  have hlt := (BitVec.ofNat 32 n).isLt
  rw [BitVec.toInt_eq_toNat_cond, int32Max]
  rw [BitVec.toNat_ofNat] at hlt ⊢
  split
  · omega
  · omega

omit [Target] in
theorem guard16_iff (n : Nat) :
    ((BitVec.ofNat 32 n).toInt < 0 ∨ (BitVec.ofNat 32 n).toInt > int32Max / 2 - 1) ↔
      1073741822 < n % 2 ^ 32 := by
  have hlt := (BitVec.ofNat 32 n).isLt
  rw [BitVec.toInt_eq_toNat_cond, int32Max]
  rw [BitVec.toNat_ofNat] at hlt ⊢
  split
  · omega
  · omega

/-- What a writer does once the guard has let it pass. -/
def TextWriter.body : TextWriter → Script
  | t@(cString value) => .block (Mem.ofList value) (t.length % 2 ^ 32 + 1)
  | t@(string value) | t@(string8WithLength value) =>
      .string (Mem.ofList value) (BitVec.ofNat 32 t.length) 1 Nat.one_ne_zero
        (Nat.le_add_right 1 3)
  | t@(string16 value) | t@(string16WithLength value) =>
      .string (Mem.ofList (charBytes value)) (BitVec.ofNat 32 t.length) 2
        (Nat.succ_ne_zero 1) (Nat.le_add_right 2 2)

/-- The guard tests the remainder. -/
theorem TextWriter.script_eq (t : TextWriter) :
    t.writer.script = if t.limit < t.length % 2 ^ 32 then .refused else t.body := by
  cases t with
  | cString value =>
      exact if_congr (guard8_iff _) rfl (by rw [BitVec.toNat_ofNat]; rfl)
  | string value | string8WithLength value => exact if_congr (guard8_iff _) rfl rfl
  | string16 value | string16WithLength value => exact if_congr (guard16_iff _) rfl rfl

theorem TextWriter.body_need (t : TextWriter) : t.body.head.need = t.firstNeed := by
  cases t <;> rfl

omit [Target] in
theorem TextWriter.limit_lt (t : TextWriter) : t.limit < 2 ^ 31 := by
  cases t with
  | cString _ | string _ | string8WithLength _ => exact (by decide : 2147483646 < 2 ^ 31)
  | string16 _ | string16WithLength _ => exact (by decide : 1073741822 < 2 ^ 31)

omit [Target] in
/-- The first four bytes of a string are its length. -/
theorem Wrote.decode_length {p p' : Parcel} {n : Nat} {rest : List UInt8} (hn : n < 2 ^ 32)
    (h : Wrote p p' (Scalar.encode (BitVec.ofNat 32 n) ++ rest)) :
    (Scalar.decode (p'.bytes.read p.writeCursor 4) : BitVec 32).toNat = n := by
  have hlen : (Scalar.encode (BitVec.ofNat 32 n)).length = 4 := Scalar.length_encode _
  have hbytes := h.bytes
  rw [List.length_append, hlen, Mem.read_add] at hbytes
  have hfirst := List.append_inj_left hbytes (by rw [Mem.length_read, hlen])
  rw [hfirst, Scalar.decode_encode, BitVec.toNat_ofNat, Nat.mod_eq_of_lt hn]

/-- A length that is its own remainder is announced. -/
theorem TextWriter.announces_of_wrote {p p' : Parcel} {t : TextWriter}
    (hn : t.length < 2 ^ 32) (h : Wrote p p' t.body.bytes) : t.Announces p p' t.length := by
  cases t with
  | cString value =>
      have hcur := h.cursor
      have hbytes : (TextWriter.cString value).body.bytes.length =
          strlen value % 2 ^ 32 + 1 + padOf (strlen value % 2 ^ 32 + 1) := by
        simp [TextWriter.body, Script.block, Script.single, Script.bytes, Piece.block,
          TextWriter.length]
      have hmod : strlen value % 2 ^ 32 = strlen value := Nat.mod_eq_of_lt hn
      rw [hbytes, hmod] at hcur
      exact hcur.trans (Nat.add_assoc _ _ _).symm
  | string value | string8WithLength value | string16 value | string16WithLength value =>
      exact Wrote.decode_length hn h

/-! ## When the guard does its work -/

/-- The guard lets a length pass that the format cannot hold, and the writer then finds room to
begin. -/
theorem lengthGuarded_iff {p : Parcel} (hp : Sound p) (t : TextWriter) :
    LengthGuarded p t ↔
      t.length ≤ t.limit ∨ t.limit < t.length % 2 ^ 32 ∨ p.room.fits [t.firstNeed] = false := by
  have hlimit := t.limit_lt
  have hrun : t.writer.exec = (if t.limit < t.length % 2 ^ 32 then Script.refused
      else t.body).put := by
    rw [t.writer.exec_eq, t.script_eq]
  by_cases hle : t.length ≤ t.limit
  · -- the length is its own remainder
    have hmod : t.length % 2 ^ 32 = t.length := Nat.mod_eq_of_lt (by omega)
    rw [hmod, if_neg (by omega)] at hrun
    refine ⟨fun _ => Or.inl hle, fun _ => ⟨fun hok => ⟨hle, ?_⟩, fun h => absurd hle h⟩⟩
    rw [hrun] at hok ⊢
    obtain ⟨bs, hwrote, hbytes, -⟩ := t.body.wrote hp
    rw [hbytes hok] at hwrote
    exact t.announces_of_wrote (by omega) hwrote
  · by_cases hbad : t.limit < t.length % 2 ^ 32
    · rw [if_pos hbad, Script.put_refused] at hrun
      refine ⟨fun _ => Or.inr (Or.inl hbad), fun _ => ?_⟩
      have hstate : t.writer.exec.run p = (false, p) := by rw [hrun, run_pure]
      refine ⟨fun hok => ?_, fun _ => ?_⟩
      · rw [hstate] at hok
        exact absurd hok (by simp)
      · rw [hstate]
        exact ⟨rfl, rfl, rfl, rfl⟩
    · -- the guard is passed: nothing is written only if there is no room to begin
      rw [if_neg hbad] at hrun
      obtain ⟨bs, hwrote, -, hnil⟩ := t.body.wrote hp
      rw [t.body_need] at hnil
      have hresult := t.body.result hp
      have hsame := hwrote.sameData_iff hp
      rw [← hrun] at hresult hsame
      constructor
      · intro h
        exact Or.inr (Or.inr (hnil.1 (hsame.1 (h.rejected hle).2)))
      · rintro (h | h | h)
        · exact absurd h hle
        · exact absurd h hbad
        · have hfail : (t.writer.exec.run p).1 = false := by
            rw [hresult, Script.needs, t.body_need, Room.fits]
            rw [Room.fits] at h
            cases htake : p.room.take t.firstNeed with
            | none => rfl
            | some r => simp [htake, Room.fits] at h
          refine ⟨fun hok => ?_, fun _ => ⟨hfail, hsame.2 (hnil.2 h)⟩⟩
          rw [hfail] at hok
          exact absurd hok (by simp)

/-- **The length guards.** In every state of a run and for every argument, the guard of a string
writer does its work if and only if the length is in range, its remainder by 2³² is not, or there
is no room for the first thing to be written. -/
theorem length_guard_iff (allocator : Nat) (heap : Nat → Option Mem) (ops : List Op)
    (h : Along (fun q op => Op.Within q op) Parcel.step (Parcel.new allocator heap) ops)
    (t : TextWriter) :
    let p := (Parcel.new allocator heap).run ops
    LengthGuarded p t ↔
      t.length ≤ t.limit ∨ t.limit < t.length % 2 ^ 32 ∨ p.room.fits [t.firstNeed] = false :=
  lengthGuarded_iff (sound_run (Sound.new allocator heap) h) t

omit [Target] in
theorem length_guard_iff_short :
    letI := Target.checked
    Along (fun q op => Op.Within q op) Parcel.step (Parcel.new 0 ampleHeap)
        [.write (.scalar .int32 7)] ∧
      LengthGuarded ((Parcel.new 0 ampleHeap).run [.write (.scalar .int32 7)])
        (.string [104, 105]) := by
  let _ := Target.checked
  have h : Along (fun q op => Op.Within q op) Parcel.step (Parcel.new 0 ampleHeap)
      [.write (.scalar .int32 7)] := ⟨trivial, trivial⟩
  exact ⟨h, (length_guard_iff 0 ampleHeap _ h _).2 (Or.inl (by decide))⟩

omit [Target] in
/-- A string of 2³² characters is announced as an empty one. -/
theorem narrowed_length_accepted :
    letI := Target.checked
    ¬ LengthGuarded (Parcel.new 0 ampleHeap) (.string (List.replicate (2 ^ 32) 120)) := by
  let _ := Target.checked
  rw [lengthGuarded_iff (Sound.new 0 ampleHeap)]
  have hlen : (TextWriter.string (List.replicate (2 ^ 32) 120)).length = 2 ^ 32 :=
    List.length_replicate
  rw [hlen]
  rintro (h | h | h)
  · exact absurd h (by decide)
  · exact absurd h (by decide)
  · revert h
    decide +kernel

end CUtils
