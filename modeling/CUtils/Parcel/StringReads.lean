import CUtils.Parcel.Decoding

/-!
# What the string readers accept

A parcel that came from `ParseFrom` with an ascending offset table is read by readers, `SkipBytes`
and `RewindRead` only. In every state such a run reaches (`Read`), a string reader accepts exactly
the bytes that are a string: a length in range, as many characters, a terminator, all of it data
and none of it inside a recorded object (`HoldsText`).

The check runs twice, once for the length and once for the characters. The first call moves the
cached index; what the second one answers is still what a scan of the whole table would say,
because the invariant `Cached` holds between them. So the two answers together are one statement
about the whole range (`free_split`).
-/

namespace CUtils

open StateRun ByteMemory Parcel

variable [Target]

/-! ## Strings in the data -/

section Texts

variable {α : Type} [Scalar α]

omit [Target] in
/-- The length in front of a string at the read cursor. -/
def Parcel.lengthAt (p : Parcel) : BitVec 32 := Scalar.decode (p.bytes.read p.readCursor 4)

omit [Target] in
/-- The `i`-th character after the length. -/
def Parcel.unitAt (α : Type) [Scalar α] (p : Parcel) (i : Nat) : α :=
  Scalar.decode (p.bytes.read (p.readCursor + 4 + i * Scalar.width α) (Scalar.width α))

omit [Target] in
/-- The `n` characters after the length. -/
def Parcel.textAt (α : Type) [Scalar α] (p : Parcel) (n : Nat) : List α :=
  (List.range n).map (p.unitAt α)

omit [Target] in
/-- The end of a string of `n` characters at the read cursor, without its padding. -/
def Parcel.textEnd (α : Type) [Scalar α] (p : Parcel) (n : Nat) : Nat :=
  p.readCursor + 4 + (n + 1) * Scalar.width α

omit [Target] in
/-- The readable bytes at the cursor are a string of `n` characters and its terminator, none of
them inside a recorded object. -/
structure HoldsText (α : Type) [Scalar α] (p : Parcel) (n : Nat) : Prop where
  length : p.lengthAt.toInt = n
  length_lt : (n : Int) < int32Max
  readable : p.textEnd α n ≤ p.dataSize
  terminated : p.unitAt α n = Scalar.zero
  free : p.Free p.readCursor (p.textEnd α n)

omit [Target] in
/-- The length can be read and is in range. -/
structure HoldsLength (p : Parcel) (n : Nat) : Prop where
  length : p.lengthAt.toInt = n
  length_lt : (n : Int) < int32Max
  readable : p.readCursor + 4 ≤ p.dataSize
  free : p.Free p.readCursor (p.readCursor + 4)

omit [Target] in
theorem HoldsText.holdsLength {p : Parcel} {n : Nat} (h : HoldsText α p n) : HoldsLength p n where
  length := h.length
  length_lt := h.length_lt
  readable := (Nat.le_add_right _ _).trans h.readable
  free := h.free.mono le_rfl (Nat.le_add_right _ _)

omit [Target] in
theorem free_split {p : Parcel} {r m u : Nat} (hr : r < m) (hu : m < u) :
    p.Free r u ↔ p.Free r m ∧ p.Free m u := by
  constructor
  · intro h
    exact ⟨h.mono le_rfl hu.le, h.mono hr.le le_rfl⟩
  · rintro ⟨hleft, hright⟩ o ho
    have hpos : 0 < flatSize := by decide
    have hl := hleft o ho
    have hr := hright o ho
    omega

omit [Target] in
theorem drop_read (m : Mem) (pos n k : Nat) : (m.read pos (k + n)).drop k = m.read (pos + k) n := by
  rw [Mem.read_add, List.drop_left' (Mem.length_read _ _ _)]

omit [Target] in
theorem take_drop_read (m : Mem) {pos n k w : Nat} (h : k + w ≤ n) :
    ((m.read pos n).drop k).take w = m.read (pos + k) w := by
  obtain ⟨c, rfl⟩ := Nat.exists_eq_add_of_le (show k ≤ n by omega)
  rw [drop_read, Mem.take_read _ _ _ _ (by omega)]

omit [Target] in
theorem chars_read (m : Mem) (pos n : Nat) :
    (chars n (m.read pos (n * Scalar.width α)) : List α) =
      (List.range n).map fun i =>
        Scalar.decode (m.read (pos + i * Scalar.width α) (Scalar.width α)) := by
  refine List.map_congr_left fun i hi => ?_
  have hle : i * Scalar.width α + Scalar.width α ≤ n * Scalar.width α := by
    rw [← Nat.succ_mul]
    exact Nat.mul_le_mul_right _ (List.mem_range.1 hi)
  rw [take_drop_read m hle]

omit [Target] in
/-- The characters of a string are the text if the terminator is there. -/
theorem charsOf_read [DecidableEq α] (p : Parcel) (n : Nat) :
    charsOf n (p.bytes.read (p.readCursor + 4) ((n + 1) * Scalar.width α)) =
      if p.unitAt α n = Scalar.zero then some (p.textAt α n) else none := by
  have hunits : (chars (n + 1) (p.bytes.read (p.readCursor + 4) ((n + 1) * Scalar.width α)) :
      List α) = p.textAt α n ++ [p.unitAt α n] := by
    rw [chars_read, List.range_succ, List.map_append]
    rfl
  have hlen : (p.textAt α n).length = n := by simp [Parcel.textAt]
  rw [charsOf, hunits, List.getLast?_concat, List.take_left' hlen]
  simp only [Option.some.injEq]

end Texts

/-! ## One read -/

/-- What a run of readers on a parsed parcel keeps: the whole block is data. -/
structure Read (p : Parcel) : Prop where
  sound : Sound p
  ordered : Ordered p
  cached : Cached p
  whole : p.dataCapacity = p.dataSize

theorem Read.looked {b : Bool} {p p' : Parcel} (hp : Read p) (h : Looked b p p') : Read p' where
  sound := hp.sound.looked h
  ordered := h.ordered.2 hp.ordered
  cached := h.cached hp.ordered hp.cached
  whole := by rw [h.eq]; exact hp.whole

omit [Target] in
theorem clear_iff_free {p : Parcel} {u : Nat} : p.Clear u ↔ p.Free p.readCursor u := by
  refine forall₂_congr fun o _ => ?_
  omega

/-- The check answers for the whole table. -/
theorem Read.scan_iff {p : Parcel} (hp : Read p) {n : Nat} (hn : n ≤ p.getReadableBytes) :
    (p.scan (szAdd p.readCursor n)).isSome = true ↔ p.Free p.readCursor (p.readCursor + n) := by
  rw [(hp.sound.readable_add hn).1, scan_isSome_iff hp.sound hp.ordered hp.cached, clear_iff_free]

/-- Padding that is cut off ends at the end of the data. -/
theorem Read.skipped_cursor {p : Parcel} (hp : Read p) (hcur : p.readCursor ≤ p.dataSize) (n : Nat) :
    (p.skipped n).readCursor = min (p.readCursor + n) p.dataSize := by
  have hwhole := hp.whole
  rw [Parcel.skipped, run_skipBytes]
  by_cases hn : p.getReadableBytes ≥ n
  · have hle := le_getReadableBytes.1 hn
    rw [if_pos hn, (hp.sound.readable_add hn).1]
    dsimp only
    omega
  · have hgt := mt le_getReadableBytes.2 hn
    rw [if_neg hn]
    dsimp only
    split
    · omega
    · omega

omit [Target] in
theorem toInt_eq_toNat_of_nonneg {n : BitVec 32} (h : ¬ n.toInt < 0) : n.toInt = n.toNat := by
  rw [BitVec.toInt_eq_toNat_cond] at h ⊢
  split at h
  · rw [if_pos ‹_›]
  · have := n.isLt
    omega

section Strings

variable {α : Type} [Scalar α] [DecidableEq α] {p : Parcel}

/-- After the length: the characters are there exactly if the bytes are a string. -/
theorem Read.readCharBody_iff (hp : Read p) (h4 : 4 ≤ p.getReadableBytes) {j : Nat}
    (hj : p.scan (szAdd p.readCursor 4) = some j) {n : Nat} (hlen : HoldsLength p n) :
    let r := (readCharBody n : ParcelM (Option (List α))).run (p.consumed 4 j)
    (HoldsText α p n → r.1 = some (p.textAt α n) ∧
      r.2.readCursor = min (p.textEnd α n + padOf ((n + 1) * Scalar.width α)) p.dataSize) ∧
    (¬ HoldsText α p n → r.1 = none) := by
  have hn : n < 2 ^ 31 := by
    have := hlen.length_lt
    simp only [int32Max] at this
    omega
  obtain ⟨hbody, hlim⟩ := charBody_eq (α := α) hn
  have hgt : (n + 1) * Scalar.width α > n := by
    have := Nat.le_mul_of_pos_right (n + 1) (Scalar.width_pos (α := α))
    omega
  have hq : Read (p.consumed 4 j) := hp.looked (looked_consumed hp.sound h4 hj)
  have hcur : (p.consumed 4 j).readCursor = p.readCursor + 4 := (hp.sound.readable_add h4).1
  have hend : p.textEnd α n = (p.consumed 4 j).readCursor + (n + 1) * Scalar.width α := by
    rw [Parcel.textEnd, hcur]
  have hroom : (n + 1) * Scalar.width α ≤ (p.consumed 4 j).getReadableBytes ↔
      p.textEnd α n ≤ p.dataSize := by
    rw [le_getReadableBytes, ← hend]
    exact or_iff_right (by omega)
  have hfree : p.Free p.readCursor (p.textEnd α n) ↔
      (p.consumed 4 j).Free (p.readCursor + 4) (p.textEnd α n) :=
    (free_split (by omega) (by rw [hend, hcur]; omega)).trans (and_iff_right hlen.free)
  dsimp only
  rw [run_readCharBody hq.sound, hbody]
  by_cases hfit : p.textEnd α n ≤ p.dataSize
  swap
  · rw [if_neg fun h => hfit (hroom.1 h.2)]
    exact ⟨fun h => absurd h.readable hfit, fun _ => rfl⟩
  rw [if_pos ⟨hgt, hroom.2 hfit⟩]
  have hscan := hq.scan_iff (hroom.2 hfit)
  rw [← hend, hcur, ← hfree] at hscan
  cases hk : (p.consumed 4 j).scan
      (szAdd (p.consumed 4 j).readCursor ((n + 1) * Scalar.width α)) with
  | none =>
      rw [hcur] at hk
      rw [hk] at hscan
      exact ⟨fun h => absurd (hscan.2 h.free) (by simp), fun _ => rfl⟩
  | some k =>
      rw [Option.elim_some]
      have hall : p.Free p.readCursor (p.textEnd α n) := by
        rw [← hcur] at hscan
        exact hscan.1 (by rw [hk]; rfl)
      have hbytes : (p.consumed 4 j).bytes = p.bytes := rfl
      rw [hbytes, hcur, charsOf_read]
      refine ⟨fun h => ⟨if_pos h.terminated, ?_⟩, fun h => if_neg fun hterm => ?_⟩
      · have hlast : Read ((p.consumed 4 j).consumed ((n + 1) * Scalar.width α) k) :=
          hq.looked (looked_consumed hq.sound (hroom.2 hfit) hk)
        have hcur' : ((p.consumed 4 j).consumed ((n + 1) * Scalar.width α) k).readCursor =
            p.textEnd α n := by
          rw [hend]
          exact (hq.sound.readable_add (hroom.2 hfit)).1
        rw [hlast.skipped_cursor (by rw [hcur']; exact hfit), hcur', getPadSize_eq hlim]
        rfl
      · exact h ⟨hlen.length, hlen.length_lt, hfit, hterm, hall⟩

/-- **The common body of the string readers**: what it returns for bytes that are a string, for
bytes that are not although the length is in range, and for a length that cannot be read or is out
of range. -/
theorem Read.readChars_cases (hp : Read p) :
    let r := (readChars : ParcelM (_ × Option (List α))).run p
    (∀ n, HoldsText α p n → r.1.2 = some (p.textAt α n) ∧
      r.2.readCursor = min (p.textEnd α n + padOf ((n + 1) * Scalar.width α)) p.dataSize) ∧
    (∀ n, HoldsLength p n → ¬ HoldsText α p n → r.1.2 = none ∧ r.2.readCursor = p.readCursor) ∧
    ((¬ ∃ n, HoldsLength p n) → r.1.2 = none) := by
  have h4_iff : 4 ≤ p.getReadableBytes ↔ p.readCursor + 4 ≤ p.dataSize := by
    rw [le_getReadableBytes]
    omega
  dsimp only
  rw [run_readChars]
  by_cases h4 : 4 ≤ p.getReadableBytes
  swap
  · have hno : ∀ n, ¬ HoldsLength p n := fun n h => h4 (h4_iff.2 h.readable)
    rw [if_neg h4]
    exact ⟨fun n h => absurd h.holdsLength (hno n), fun n h => absurd h (hno n), fun _ => rfl⟩
  rw [if_pos h4]
  have hscan := hp.scan_iff h4
  cases hj : p.scan (szAdd p.readCursor 4) with
  | none =>
      have hno : ∀ n, ¬ HoldsLength p n := fun n h => by
        have := hscan.2 h.free
        rw [hj] at this
        exact absurd this (by simp)
      exact ⟨fun n h => absurd h.holdsLength (hno n), fun n h => absurd h (hno n), fun _ => rfl⟩
  | some j =>
      rw [Option.elim_some, run_readAfterLength]
      rw [show (Scalar.decode (p.bytes.read p.readCursor 4) : BitVec 32) = p.lengthAt from rfl]
      by_cases hrange : p.lengthAt.toInt < 0 ∨ p.lengthAt.toInt ≥ int32Max
      · have hno : ∀ n, ¬ HoldsLength p n := fun n h => by
          have := h.length
          have := h.length_lt
          omega
        rw [if_pos hrange]
        exact ⟨fun n h => absurd h.holdsLength (hno n), fun n h => absurd h (hno n), fun _ => rfl⟩
      · obtain ⟨hnonneg, hlt⟩ := not_or.1 hrange
        have hcast := toInt_eq_toNat_of_nonneg hnonneg
        have hlen : HoldsLength p p.lengthAt.toNat :=
          ⟨hcast, by omega, h4_iff.1 h4, hscan.1 (by rw [hj]; rfl)⟩
        have hsame : ∀ n, HoldsLength p n → n = p.lengthAt.toNat := fun n h => by
          have := h.length
          omega
        obtain ⟨hyes, hno⟩ := hp.readCharBody_iff (α := α) h4 hj hlen
        rw [if_neg hrange]
        dsimp only
        refine ⟨fun n h => ?_, fun n h hnot => ?_, fun h => absurd ⟨_, hlen⟩ h⟩
        · have hn := hsame n h.holdsLength
          rw [hn] at h ⊢
          obtain ⟨hsome, hcur⟩ := hyes h
          rw [hsome, Option.elim_some]
          exact ⟨rfl, hcur⟩
        · rw [hsame n h] at hnot
          rw [hno hnot, Option.elim_none]
          exact ⟨rfl, rfl⟩

end Strings

/-! ## The readers over whole runs -/

/-- What a reader with an out-parameter makes of the bytes at the cursor. -/
structure ReadsText (α : Type) [Scalar α] (p : Parcel) (m : ParcelM (Bool × List α)) : Prop where
  accepts : (m.run p).1.1 = true ↔ ∃ n, HoldsText α p n
  value : ∀ n, HoldsText α p n → (m.run p).1.2 = p.textAt α n
  /-- The padding is part of what is taken, as far as there is any. -/
  cursor : ∀ n, HoldsText α p n → (m.run p).2.readCursor =
    min (p.readCursor + 4 + ((n + 1) * Scalar.width α + 3) / 4 * 4) p.dataSize
  restored : ∀ n, HoldsLength p n → ¬ HoldsText α p n → (m.run p).2.readCursor = p.readCursor

/-- The reader with an out-parameter, the one that returns the string and the one that reports the
length give the same string and leave the same state. -/
def Agree {α : Type} (p : Parcel) (ref : ParcelM (Bool × List α)) (value : ParcelM (List α))
    (withLength : BitVec 32 → ParcelM (List α × BitVec 32)) : Prop :=
  (value.run p).1 = (ref.run p).1.2 ∧ (value.run p).2 = (ref.run p).2 ∧
    ∀ readLength, ((withLength readLength).run p).1.1 = (ref.run p).1.2 ∧
      ((withLength readLength).run p).2 = (ref.run p).2

theorem Read.readsText {α : Type} [Scalar α] [DecidableEq α] {p : Parcel} (hp : Read p)
    {m : ParcelM (Bool × List α)}
    (hm : m = (fun r => (r.2.isSome, r.2.getD [])) <$> readChars) : ReadsText α p m := by
  obtain ⟨hyes, hno, hbad⟩ := hp.readChars_cases (α := α)
  have hres : (m.run p).1 = (((readChars : ParcelM (_ × Option (List α))).run p).1.2.isSome,
      ((readChars : ParcelM (_ × Option (List α))).run p).1.2.getD []) := by
    rw [hm]
    rfl
  have hstate : (m.run p).2 = ((readChars : ParcelM (_ × Option (List α))).run p).2 := by
    rw [hm]
    rfl
  refine ⟨⟨fun h => ?_, fun ⟨n, h⟩ => ?_⟩, fun n h => ?_, fun n h => ?_, fun n h hnot => ?_⟩
  · rw [hres] at h
    by_contra hnone
    by_cases hlen : ∃ n, HoldsLength p n
    · obtain ⟨n, hlen⟩ := hlen
      rw [(hno n hlen fun ht => hnone ⟨n, ht⟩).1] at h
      exact absurd h (by simp)
    · rw [hbad hlen] at h
      exact absurd h (by simp)
  · rw [hres, (hyes n h).1]
    rfl
  · rw [hres, (hyes n h).1]
    rfl
  · rw [hstate, (hyes n h).2, Parcel.textEnd]
    congr 1
    unfold padOf
    omega
  · rw [hstate, (hno n h hnot).2]

/-- A call that only reads. -/
def Op.ReadsOnly : Op → Prop
  | read _ _ | skipBytes _ | rewindRead _ => True
  | _ => False

theorem Read.step {p : Parcel} (hp : Read p) {op : Op} (h : op.ReadsOnly) : Read (p.step op) := by
  cases op with
  | read m hm => exact hp.looked (hm.reads p hp.sound)
  | skipBytes n => exact hp.looked (skipBytes_reads false n p hp.sound)
  | rewindRead n =>
      have hstep : Steady p (p.step (.rewindRead n)) := steady_step hp.sound id
      have heq : p.step (.rewindRead n) = { p with
          readCursor := (p.step (.rewindRead n)).readCursor
          nextObjectIdx := (p.step (.rewindRead n)).nextObjectIdx } := by
        simp only [Parcel.step, Op.exec, CUtils.rewindRead, run_bind, run_get]
        split
        · rfl
        · rfl
      have hord : Ordered (p.step (.rewindRead n)) := by
        rw [heq]
        exact ⟨hp.ordered.check, hp.ordered.sorted⟩
      refine ⟨hstep.sound, hord, hstep.cached hord hp.cached, ?_⟩
      rw [heq]
      exact hp.whole
  | _ => exact absurd h id

omit [Target] in
/-- An offset that is recorded goes to the end of the table. -/
theorem injectOffset_offsets (p : Parcel) (o : Nat) :
    ((injectOffset o).run p).2.offsets = p.offsets ∨
      ((injectOffset o).run p).2.offsets = p.offsets ++ [o] := by
  have hoffsets := offsets_ensureObjectsCapacity p
  rw [injectOffset, run_bind]
  cases (ensureObjectsCapacity.run p).1 with
  | false => exact Or.inl hoffsets
  | true =>
      simp only [if_true, run_bind, run_pure, run_writeObjectOffset]
      split
      · exact Or.inl hoffsets
      · refine Or.inr ?_
        rw [← hoffsets]
        rfl

omit [Target] in
/-- Injecting ascending offsets behind the recorded ones leaves an ascending table. -/
theorem injectOffsets_sorted {os : List Nat} {p : Parcel}
    (h : (p.offsets ++ os).Pairwise (· < ·)) :
    ((os.forM injectOffset).run p).2.offsets.Pairwise (· < ·) := by
  induction os generalizing p with
  | nil => simpa using h
  | cons o os ih =>
      refine ih ?_
      rcases injectOffset_offsets p o with ho | ho
      · rw [ho]
        exact h.sublist ((List.sublist_cons_self o os).append_left _)
      · rw [ho, List.append_assoc]
        exact h

omit [Target] in
/-- The block is as large as the data. -/
def Whole (p : Parcel) : Prop := p.dataCapacity = p.dataSize

omit [Target] in
theorem injectOffset_whole (o : Nat) : Keeps Whole (injectOffset o) := by
  refine Tracks.bind (fun p hp => ?_) fun ok => ?_
  · rw [ensureObjectsCapacity_eq]
    exact hp
  · cases ok with
    | false => exact Tracks.pure _
    | true =>
        refine Tracks.bind (fun p hp => ?_) fun _ => Tracks.pure _
        rw [run_writeObjectOffset]
        split
        · exact hp
        · exact hp

omit [Target] in
theorem injectOffsets_whole (os : List Nat) : Keeps Whole (os.forM injectOffset) := by
  induction os with
  | nil => exact Tracks.pure _
  | cons o os ih => exact Tracks.bind (injectOffset_whole o) fun _ => ih

/-- A parcel that has taken over a block, before anything is read. -/
theorem Read.parsed (hcheck : Target.objectCheck = true) (allocator : Nat)
    (heap : Nat → Option Mem) {data : Option Mem} {size : Nat} (hsize : size ≤ ptrdiffMax)
    (hnull : data = none → size = 0) {offsets : List Nat} (hasc : offsets.Pairwise (· < ·)) :
    Read (((Parcel.new allocator heap).step (.parseFrom data size hsize hnull)).step
      (.injectOffsets (some offsets))) := by
  have hnew := Sound.new allocator heap
  have hparse : (Parcel.new allocator heap).step (.parseFrom data size hsize hnull) =
      (Parcel.new allocator heap).parsed data size := by
    have h : ((parseFrom data size).run (Parcel.new allocator heap)).2 =
        (Parcel.new allocator heap).parsed data size := by
      rw [run_parseFrom, if_neg (by simp [Parcel.new]), if_neg (by simp [Parcel.new])]
    exact h
  rw [hparse]
  have hq : Sound ((Parcel.new allocator heap).parsed data size) := by
    rw [← hparse]
    exact (parseFrom_steady hnew hsize hnull).sound
  have hstep := (injectOffsets_extends (some offsets) _ hq).steady
  have hempty : ((Parcel.new allocator heap).parsed data size).offsets = [] := rfl
  have hord : Ordered (((Parcel.new allocator heap).parsed data size).step
      (.injectOffsets (some offsets))) :=
    ⟨hcheck, injectOffsets_sorted (by rw [hempty]; exact hasc)⟩
  refine ⟨hstep.sound, hord, hstep.cached hord ?_, injectOffsets_whole offsets _ rfl⟩
  intro o ho
  exact absurd ho (by simp [Parcel.new, Parcel.parsed])

/-- **The string readers accept exactly their encoding**, in every state that readers, `SkipBytes`
and `RewindRead` lead to from a parcel with a parsed block and an ascending offset table. The three
readers of a kind agree in every state. -/
theorem string_readers_exact (hcheck : Target.objectCheck = true) (allocator : Nat)
    (heap : Nat → Option Mem) (data : Option Mem) (size : Nat) (hsize : size ≤ ptrdiffMax)
    (hnull : data = none → size = 0) (offsets : List Nat) (hasc : offsets.Pairwise (· < ·))
    (ops : List Op) (hops : ∀ op ∈ ops, op.ReadsOnly) :
    let p := (Parcel.new allocator heap).run
      (.parseFrom data size hsize hnull :: .injectOffsets (some offsets) :: ops)
    ReadsText Char8 p readStringRef ∧ ReadsText Char16 p readString16Ref ∧
      ∀ q : Parcel, Agree q readStringRef readString readString8WithLength ∧
        Agree q readString16Ref readString16 readString16WithLength := by
  have hrun : Read ((Parcel.new allocator heap).run
      (.parseFrom data size hsize hnull :: .injectOffsets (some offsets) :: ops)) := by
    have hfree : Along (fun _ op => Op.ReadsOnly op) Parcel.step
        (((Parcel.new allocator heap).step (.parseFrom data size hsize hnull)).step
          (.injectOffsets (some offsets))) ops :=
      Along.of_forall (fun _ op hop => hops op hop) _
    have hlast := Along.invariant (I := Read) (fun _ _ hop hq => hq.step hop) hfree
      (Read.parsed hcheck allocator heap hsize hnull hasc)
    exact hlast
  refine ⟨hrun.readsText rfl, hrun.readsText rfl, fun q => ⟨?_, ?_⟩⟩
  · exact ⟨rfl, rfl, fun _ => ⟨rfl, rfl⟩⟩
  · exact ⟨rfl, rfl, fun _ => ⟨rfl, rfl⟩⟩

omit [Target] in
/-- A string behind an object, with its padding cut off. -/
theorem string_readers_exact_cut :
    letI := Target.checked
    let block := List.replicate 24 0 ++ [2, 0, 0, 0, 104, 105, 0]
    let p := (Parcel.new 0 ampleHeap).run
      [.parseFrom (some (Mem.ofList block)) 31 (by decide) (by simp), .injectOffsets (some [0]),
        .skipBytes 24]
    HoldsText Char8 p 2 ∧ p.textAt Char8 2 = [104, 105] ∧ ReadsText Char8 p readStringRef := by
  let _ := Target.checked
  refine ⟨⟨?_, ?_, ?_, ?_, ?_⟩, ?_, ?_⟩
  · decide +kernel
  · decide +kernel
  · decide +kernel
  · decide +kernel
  · decide +kernel
  · decide +kernel
  · exact (string_readers_exact rfl 0 ampleHeap
      (some (Mem.ofList (List.replicate 24 0 ++ [2, 0, 0, 0, 104, 105, 0]))) 31 (by decide)
      (by simp) [0] (by simp) [.skipBytes 24] (by simp [Op.ReadsOnly])).1

end CUtils
