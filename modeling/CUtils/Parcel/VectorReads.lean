import CUtils.Parcel.Decoding

/-!
# The vector readers on data that others have written

A vector is a count and as many elements. `VectorKind.decode` says of a byte source whether one
stands at a position. A reader that returns `true` should have found one in the data outside the
recorded objects (`VectorKind.ReadsRight`), and there are three ways in which it has not.

* The count cannot be read. It is read by a reader that reports failure as zero, so the vector
  reader returns `true` and an empty vector.
* An element of a vector of strings cannot be read. It is read by a reader that reports failure
  as an empty string, which becomes the element.
* A recorded object covers bytes that were read and the check has let them pass: the check is not
  compiled in, or an object stands in the offset table behind one with a larger offset. While the
  offsets ascend this does not happen (`VectorKind.not_hidden`).

`vector_reads_right` says that there is no fourth.
-/

namespace CUtils

open StateRun ByteMemory Parcel

/-! ## Elements and vectors -/

namespace VectorKind

/-- One element, as the reader of that kind takes it. -/
def elem : (k : VectorKind) → Source → Decoder k.Elem
  | bool => fun s => s.word.map fun (w : BitVec 32) => w != 0
  | int16 => fun s => s.word.map fun (w : BitVec 32) => w.setWidth 16
  | int8 | uint8 => fun s => s.word
  | uint16 => fun s => s.word
  | int32 | uint32 | float => fun s => s.word
  | int64 | uint64 | double => fun s => s.word
  | string => fun s => text s
  | string16 => fun s => text s

/-- A count and as many elements. -/
def decode (k : VectorKind) (s : Source) : Decoder (List k.Elem) := Decoder.counted s (k.elem s)

/-- The elements are strings. -/
def Textual (k : VectorKind) : Prop := k = string ∨ k = string16

/-- The size from which the padding behind the elements is computed. -/
def size : VectorKind → Nat
  | int8 | uint8 => 1
  | uint16 => 2
  | bool | int16 | int32 | uint32 | float => 4
  | int64 | uint64 | double => 8
  | string | string16 => sizeofString

theorem decode_le (k : VectorKind) {s t : Source} {c : Nat} (h : s.Le c t) :
    Decoder.Le c (k.decode s) (k.decode t) := by
  refine Decoder.Le.counted h ?_
  cases k with
  | bool => exact Decoder.Le.map h.word fun w => w != 0
  | int16 => exact Decoder.Le.map h.word (BitVec.setWidth 16)
  | string | string16 => exact text_le h
  | _ => exact h.word

variable [Target] {s : Source} {p : Parcel} {r : Nat}

/-- The readers of strings as the readers of elements. -/
theorem readString_follows : Follows (fun s => (text s : Decoder (List Char8))) readString id := by
  intro s p r cs r' h hat hd
  obtain ⟨hres, hnext⟩ := readChars_follows h hat hd
  exact ⟨by rw [readString, run_map, hres]; rfl, hnext⟩

theorem readString16_follows :
    Follows (fun s => (text s : Decoder (List Char16))) readString16 id := by
  intro s p r cs r' h hat hd
  obtain ⟨hres, hnext⟩ := readChars_follows h hat hd
  exact ⟨by rw [readString16, run_map, hres]; rfl, hnext⟩

/-- A vector that is not one of strings is read by `readVector`, with an element reader that finds
the elements and notices when one is missing. -/
theorem read_eq_readVector (k : VectorKind) (hk : ¬ k.Textual) :
    ∃ maxSize zero readElem, k.read = readVector k.size maxSize zero readElem ∧
      2 ^ 31 ≤ maxSize ∧ (0 < k.size ∧ k.size ≤ 8) ∧
      (∀ v, Follows k.elem (readElem v) fun a => (true, a)) ∧ (∀ v, Misses k.elem (readElem v)) ∧
      ∀ s p, Sees s p → (k.elem s).Takes k.size p.dataSize := by
  cases k with
  | string => exact absurd (Or.inl rfl) hk
  | string16 => exact absurd (Or.inr rfl) hk
  | bool =>
      exact ⟨_, _, _, rfl, by decide +kernel, by decide,
        fun v => readPadded_follows (fun w => w != 0) v,
        fun v => readPadded_misses (fun w => w != 0) v,
        fun s p h => h.word_takes.map (f := fun w => w != 0)⟩
  | int16 =>
      exact ⟨_, _, _, rfl, by decide +kernel, by decide,
        fun v => readPadded_follows (BitVec.setWidth 16) v,
        fun v => readPadded_misses (BitVec.setWidth 16) v,
        fun s p h => h.word_takes.map (f := BitVec.setWidth 16)⟩
  | _ =>
      exact ⟨_, _, _, rfl, by decide +kernel, by decide, fun v => CUtils.read_follows v,
        fun v => CUtils.read_misses v, fun s p h => h.word_takes⟩

/-- A vector whose count cannot be read is read as an empty one. -/
theorem read_lost (k : VectorKind) (h : Sees s p) (hat : p.At r)
    (hd : (s.word r : Option (BitVec 32 × Nat)) = none) (val : List k.Elem) :
    ((k.read (some val)).run p).1 = (true, some []) := by
  by_cases hk : k.Textual
  · rcases hk with rfl | rfl
    · exact readStringsVector_lost h hat hd val
    · exact readStringsVector_lost h hat hd val
  · obtain ⟨maxSize, zero, readElem, hread, -⟩ := k.read_eq_readVector hk
    rw [hread]
    exact readVector_lost h hat hd val

/-- A vector of which everything is there is read. -/
theorem read_follows (k : VectorKind) (h : Sees s p) (hat : p.At r) {xs : List k.Elem} {e : Nat}
    (hd : k.decode s r = some (xs, e)) (val : List k.Elem) :
    ((k.read (some val)).run p).1 = (true, some xs) ∧ Sees s ((k.read (some val)).run p).2 ∧
      ((k.read (some val)).run p).2.At (e + padOf (xs.length * k.size)) := by
  by_cases hk : k.Textual
  · have hpad : padOf (xs.length * k.size) = 0 := by
      have : k.size = 24 := by rcases hk with rfl | rfl <;> rfl
      rw [this, padOf]
      omega
    rw [hpad, Nat.add_zero]
    rcases hk with rfl | rfl
    · exact readStringsVector_follows readString_follows h hat h.text_takes hd val
    · exact readStringsVector_follows readString16_follows h hat h.text_takes hd val
  · obtain ⟨maxSize, zero, readElem, hread, hmax, hsize, helem, -, htakes⟩ :=
      k.read_eq_readVector hk
    rw [hread]
    exact readVector_follows hsize hmax helem h hat (htakes s p h) hd val

/-- Of a vector that is not one of strings, an element that is not there is noticed. -/
theorem read_misses (k : VectorKind) (hk : ¬ k.Textual) (h : Sees s p) (hat : p.At r)
    {n : BitVec 32} {m : Nat} (hword : s.word r = some (n, m)) (hd : k.decode s r = none)
    (val : List k.Elem) : ((k.read (some val)).run p).1.1 = false := by
  obtain ⟨maxSize, zero, readElem, hread, -, -, helem, hmiss, -⟩ := k.read_eq_readVector hk
  rw [hread]
  exact readVector_misses helem hmiss h hat hword hd val

/-- Of a vector of strings, only the count is questioned. -/
theorem read_textual (k : VectorKind) (hk : k.Textual) (h : Sees s p) (hat : p.At r)
    {n : BitVec 32} {m : Nat} (hword : s.word r = some (n, m)) (val : List k.Elem) :
    ((k.read (some val)).run p).1.1 = true ↔ ¬ n.toInt < 0 ∧ n.toNat ≤ p.dataSize - m := by
  rcases hk with rfl | rfl
  · exact readStringsVector_result h hat hword val
  · exact readStringsVector_result h hat hword val

/-! ## When a vector is read right -/

/-- No vector is read through a null pointer. -/
theorem read_null (k : VectorKind) (p : Parcel) : ((k.read none).run p).1.1 = false := by
  cases k <;> rfl

/-- The reader returns `true` only if a vector stands at the cursor, outside the recorded objects,
and then that vector is what it has read. -/
def ReadsRight (k : VectorKind) (p : Parcel) (val : Option (List k.Elem)) : Prop :=
  ((k.read val).run p).1.1 = true →
    ∃ xs e, k.decode p.source p.readCursor = some (xs, e) ∧ ((k.read val).run p).1.2 = some xs

/-- The count is cut off, or the check rejects it. -/
def CountLost (p : Parcel) : Prop := (p.passed.word p.readCursor : Option (BitVec 32 × Nat)) = none

/-- A vector of strings announces no more elements than there are bytes behind the count, and one
of them is cut off, malformed or rejected by the check. -/
def StringLost (k : VectorKind) (p : Parcel) : Prop :=
  k.Textual ∧
    (∃ (n : BitVec 32) (m : Nat), p.passed.word p.readCursor = some (n, m) ∧ ¬ n.toInt < 0 ∧
      n.toNat ≤ p.dataSize - m) ∧
    k.decode p.passed p.readCursor = none

/-- The check lets a vector pass of which a byte belongs to a recorded object. -/
def Hidden (k : VectorKind) (p : Parcel) : Prop :=
  (k.decode p.passed p.readCursor).isSome = true ∧ k.decode p.source p.readCursor = none

/-- While the recorded offsets ascend, no object is hidden from the check. -/
theorem not_hidden (k : VectorKind) (hp : Sound p) (ho : Ordered p) (hc : Cached p) :
    ¬ k.Hidden p := by
  rintro ⟨hsome, hnone⟩
  obtain ⟨⟨xs, e⟩, hd⟩ := Option.isSome_iff_exists.1 hsome
  have hle : p.passed.Le p.readCursor p.source := fun r n bs hr h => ((ho.sees hp hc).piece hr).2 h
  have := (k.decode_le hle le_rfl hd).1
  rw [hnone] at this
  exact absurd this (by simp)

/-- A reader that returns `true` has decoded a vector, or has lost its count or a string. -/
theorem read_true (k : VectorKind) (hp : Sound p) {val : List k.Elem}
    (htrue : ((k.read (some val)).run p).1.1 = true) :
    CountLost p ∨ k.StringLost p ∨ (k.decode p.passed p.readCursor).isSome = true := by
  have hsees := Sees.passed hp
  have hat : p.At p.readCursor := Or.inl rfl
  cases hword : (p.passed.word p.readCursor : Option (BitVec 32 × Nat)) with
  | none => exact Or.inl hword
  | some x =>
      refine Or.inr ?_
      cases hd : k.decode p.passed p.readCursor with
      | some y => exact Or.inr rfl
      | none =>
          refine Or.inl ?_
          by_cases hk : k.Textual
          · exact ⟨hk, ⟨x.1, x.2, hword, (k.read_textual hk hsees hat hword val).1 htrue⟩, hd⟩
          · rw [k.read_misses hk hsees hat hword hd val] at htrue
            exact absurd htrue (by simp)

/-- A vector is read right unless it is lost in one of the three ways. -/
theorem readsRight_iff (k : VectorKind) (hp : Sound p) (val : Option (List k.Elem)) :
    k.ReadsRight p val ↔ val = none ∨ ¬ CountLost p ∧ ¬ k.StringLost p ∧ ¬ k.Hidden p := by
  have hsees := Sees.passed hp
  have hat : p.At p.readCursor := Or.inl rfl
  cases val with
  | none =>
      have hnull := k.read_null p
      exact ⟨fun _ => Or.inl rfl, fun _ htrue => absurd (hnull.symm.trans htrue) (by simp)⟩
  | some val =>
      simp only [reduceCtorEq, false_or]
      constructor
      · intro hright
        -- what is read right, the check has let pass as well
        have hpassed : ((k.read (some val)).run p).1.1 = true →
            ∃ x, k.decode p.source p.readCursor = some x ∧
              k.decode p.passed p.readCursor = some x := by
          intro htrue
          obtain ⟨xs, e, hsource, -⟩ := hright htrue
          exact ⟨_, hsource, (k.decode_le (source_le_passed hp) (Nat.zero_le _) hsource).1⟩
        refine ⟨fun hlost => ?_, fun hlost => ?_, fun hhidden => ?_⟩
        · obtain ⟨x, -, hd⟩ := hpassed (by rw [k.read_lost hsees hat hlost val])
          obtain ⟨n, m, hword, -⟩ := Decoder.counted_eq_some hd
          exact absurd (hlost.symm.trans hword) (by simp)
        · obtain ⟨hk, ⟨n, m, hword, hcount⟩, hnone⟩ := hlost
          obtain ⟨x, -, hd⟩ := hpassed ((k.read_textual hk hsees hat hword val).2 hcount)
          exact absurd (hnone.symm.trans hd) (by simp)
        · obtain ⟨⟨xs, e⟩, hd⟩ := Option.isSome_iff_exists.1 hhidden.1
          obtain ⟨x, hsource, -⟩ := hpassed (by rw [(k.read_follows hsees hat hd val).1])
          exact absurd (hhidden.2.symm.trans hsource) (by simp)
      · rintro ⟨hcount, hstring, hhidden⟩ htrue
        have hd := ((k.read_true hp htrue).resolve_left hcount).resolve_left hstring
        obtain ⟨⟨xs, e⟩, hsource⟩ := Option.ne_none_iff_exists'.1 fun hnone => hhidden ⟨hd, hnone⟩
        have hpassed := (k.decode_le (source_le_passed hp) (Nat.zero_le _) hsource).1
        exact ⟨xs, e, hsource, by rw [(k.read_follows hsees hat hpassed val).1]⟩

end VectorKind

section Runs

variable [Target]

/-- **Vector readers.** In every state of a run, each vector reader returns `true` only for a
vector that stands at the cursor outside every recorded object, and returns that vector, exactly
unless the count is lost, a string is lost or an object is hidden from the check. -/
theorem vector_reads_right (allocator : Nat) (heap : Nat → Option Mem) (ops : List Op)
    (h : Along (fun q op => Op.Within q op) Parcel.step (Parcel.new allocator heap) ops)
    (k : VectorKind) (val : Option (List k.Elem)) :
    let p := (Parcel.new allocator heap).run ops
    k.ReadsRight p val ↔
      val = none ∨ ¬ VectorKind.CountLost p ∧ ¬ k.StringLost p ∧ ¬ k.Hidden p :=
  k.readsRight_iff (sound_run (Sound.new allocator heap) h) val

end Runs

/-- Two bytes and an object behind them, as the driver would hand them over. -/
theorem vector_reads_right_twoBytes :
    letI := Target.checked
    let data := Mem.ofList [2, 0, 0, 0, 65, 66, 0, 0]
    let ops : List Op :=
      [.parseFrom (some data) 32 (by decide) (by simp), .injectOffsets (some [8])]
    let p := (Parcel.new 0 ampleHeap).run ops
    Along (fun q op => Op.Within q op) Parcel.step (Parcel.new 0 ampleHeap) ops ∧
      p.offsets = [8] ∧ VectorKind.ReadsRight .int8 p (some []) ∧
      ((VectorKind.read .int8 (some [])).run p).1 = (true, some [65, 66]) := by
  let _ := Target.checked
  have h : Along (fun q op => Op.Within q op) Parcel.step (Parcel.new 0 ampleHeap)
      [.parseFrom (some (Mem.ofList [2, 0, 0, 0, 65, 66, 0, 0])) 32 (by decide) (by simp),
        .injectOffsets (some [8])] := ⟨trivial, trivial, trivial⟩
  refine ⟨h, by decide +kernel,
    (vector_reads_right 0 ampleHeap _ h .int8 _).2 (Or.inr ⟨?_, ?_, ?_⟩),
    by decide +kernel⟩
  · unfold VectorKind.CountLost
    decide +kernel
  · rintro ⟨hk, -⟩
    rcases hk with hk | hk
    · exact absurd hk (by decide)
    · exact absurd hk (by decide)
  · unfold VectorKind.Hidden
    decide +kernel

/-- Data of two bytes has no room for a count, and is read as an empty vector. -/
theorem vector_reads_truncated_count :
    letI := Target.checked
    let p := (Parcel.new 0 ampleHeap).run [.parseFrom (some fun _ => 0) 2 (by decide) (by simp)]
    ((VectorKind.read .int32 (some [7])).run p).1 = (true, some []) ∧
      ¬ VectorKind.ReadsRight .int32 p (some [7]) := by
  let _ := Target.checked
  refine ⟨by decide +kernel, fun hright => ?_⟩
  obtain ⟨xs, e, hd, -⟩ := hright (by decide +kernel)
  have hnone : VectorKind.decode .int32 ((Parcel.new 0 ampleHeap).run
      [.parseFrom (some fun _ => 0) 2 (by decide) (by simp)]).source 0 = none := by decide +kernel
  exact absurd (hnone.symm.trans hd) (by simp)

end CUtils
