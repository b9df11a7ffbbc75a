import CUtils.Parcel.Ops
import Mathlib.Tactic.IntervalCases

/-!
# What a writer does to the buffer

The parcel keeps four cursors and two sizes that are updated one by one. `Sound` is what holds
of them between calls; `Wrote p p' bs` is everything a call of a writer can do: append the bytes
`bs`, grow the block, and nothing else. Both are established here for the steps a writer is made
of: asking for room, storing, copying a block and clearing its padding.
-/

namespace CUtils

open StateRun ByteMemory Parcel

/-! ## The invariant -/

/-- What holds of the block and of its limit, wherever the data ends. -/
structure Stored (p : Parcel) : Prop where
  cap_le : p.dataCapacity ≤ ptrdiffMax
  null : p.data = none → p.dataCapacity = 0
  max_ge : defaultCapacity ≤ p.maxDataCapacity
  max_lt : p.maxDataCapacity < sizeLimit

/-- What holds of the buffer between calls. -/
structure Sound (p : Parcel) : Prop where
  size_le : p.dataSize ≤ p.dataCapacity
  cap_le : p.dataCapacity ≤ ptrdiffMax
  cursor_le : p.writeCursor ≤ ptrdiffMax
  read_le : p.readCursor ≤ ptrdiffMax
  max_ge : defaultCapacity ≤ p.maxDataCapacity
  max_lt : p.maxDataCapacity < sizeLimit
  null : p.data = none → p.dataCapacity = 0
  /-- The data never reaches past the write cursor while the parcel can be written. -/
  behind : p.writable = true → p.dataSize ≤ p.writeCursor
  offsets_le : ∀ o ∈ p.offsets, o ≤ ptrdiffMax
  next_le : p.nextObjectIdx ≤ p.objectCursor
  log_ok : ∀ a ∈ p.log, a.kind ≠ .slot → a.InBounds

theorem Sound.stored {p : Parcel} (h : Sound p) : Stored p :=
  ⟨h.cap_le, h.null, h.max_ge, h.max_lt⟩

theorem Sound.new (allocator : Nat) (heap : Nat → Option Mem) :
    Sound (Parcel.new allocator heap) where
  size_le := le_rfl
  cap_le := by simp [Parcel.new]
  cursor_le := by simp [Parcel.new]
  read_le := by simp [Parcel.new]
  max_ge := le_rfl
  max_lt := by simp [Parcel.new, defaultCapacity, sizeLimit]
  null _ := rfl
  behind _ := le_rfl
  offsets_le := by simp [Parcel.new, Parcel.offsets]
  next_le := by simp [Parcel.new]
  log_ok := by simp [Parcel.new]

/-- The fields no writer touches. -/
structure Frame (p p' : Parcel) : Prop where
  readCursor : p'.readCursor = p.readCursor
  maxDataCapacity : p'.maxDataCapacity = p.maxDataCapacity
  objectOffsets : p'.objectOffsets = p.objectOffsets
  nextObjectIdx : p'.nextObjectIdx = p.nextObjectIdx
  objectsCapacity : p'.objectsCapacity = p.objectsCapacity
  allocator : p'.allocator = p.allocator
  objectHolder : p'.objectHolder = p.objectHolder
  writable : p'.writable = p.writable
  held : p'.held = p.held

theorem Frame.refl (p : Parcel) : Frame p p := ⟨rfl, rfl, rfl, rfl, rfl, rfl, rfl, rfl, rfl⟩

theorem Frame.trans {p p' p'' : Parcel} (h : Frame p p') (h' : Frame p' p'') : Frame p p'' where
  readCursor := h'.readCursor.trans h.readCursor
  maxDataCapacity := h'.maxDataCapacity.trans h.maxDataCapacity
  objectOffsets := h'.objectOffsets.trans h.objectOffsets
  nextObjectIdx := h'.nextObjectIdx.trans h.nextObjectIdx
  objectsCapacity := h'.objectsCapacity.trans h.objectsCapacity
  allocator := h'.allocator.trans h.allocator
  objectHolder := h'.objectHolder.trans h.objectHolder
  writable := h'.writable.trans h.writable
  held := h'.held.trans h.held

theorem Frame.offsets {p p' : Parcel} (h : Frame p p') : p'.offsets = p.offsets := by
  rw [Parcel.offsets, Parcel.offsets, h.objectOffsets]

/-- The log has grown by in-bounds stores only. -/
def LogStores (p p' : Parcel) : Prop :=
  ∃ new, p'.log = new ++ p.log ∧ ∀ a ∈ new, a.kind = .store ∧ a.InBounds

theorem LogStores.refl (p : Parcel) : LogStores p p := ⟨[], rfl, by simp⟩

theorem LogStores.trans {p p' p'' : Parcel} (h : LogStores p p') (h' : LogStores p' p'') :
    LogStores p p'' := by
  obtain ⟨new, hlog, hnew⟩ := h
  obtain ⟨new', hlog', hnew'⟩ := h'
  refine ⟨new' ++ new, by rw [hlog', hlog, List.append_assoc], fun a ha => ?_⟩
  rcases List.mem_append.1 ha with ha | ha
  · exact hnew' a ha
  · exact hnew a ha

/-- Everything a writer can do: append `bs` and grow the block. -/
structure Wrote (p p' : Parcel) (bs : List UInt8) : Prop where
  frame : Frame p p'
  cursor : p'.writeCursor = p.writeCursor + bs.length
  size : p'.dataSize = p.dataSize + bs.length
  cap_ge : p.dataCapacity ≤ p'.dataCapacity
  cap_le : p'.dataCapacity ≤ ptrdiffMax
  isSome : p.data.isSome = true → p'.data.isSome = true
  null : p'.data = none → p'.dataCapacity = 0
  agree : Mem.AgreeTo (min p.writeCursor p.dataCapacity) p'.bytes p.bytes
  bytes : p'.bytes.read p.writeCursor bs.length = bs
  room : bs ≠ [] →
    p.writable = true ∧ p'.data.isSome = true ∧ p'.writeCursor ≤ p'.dataCapacity
  readOnly : p.writable = false → p'.bytes = p.bytes
  log : LogStores p p'

theorem Wrote.refl {p : Parcel} (h : Sound p) : Wrote p p [] where
  frame := Frame.refl p
  cursor := rfl
  size := rfl
  cap_ge := le_rfl
  cap_le := h.cap_le
  isSome := id
  null := h.null
  agree := Mem.AgreeTo.refl _ _
  bytes := rfl
  room hne := absurd rfl hne
  readOnly _ := rfl
  log := LogStores.refl p

theorem Wrote.trans {p p' p'' : Parcel} {bs cs : List UInt8} (h : Wrote p p' bs)
    (h' : Wrote p' p'' cs) : Wrote p p'' (bs ++ cs) where
  frame := h.frame.trans h'.frame
  cursor := by rw [h'.cursor, h.cursor, List.length_append, Nat.add_assoc]
  size := by rw [h'.size, h.size, List.length_append, Nat.add_assoc]
  cap_ge := h.cap_ge.trans h'.cap_ge
  cap_le := h'.cap_le
  isSome := h'.isSome ∘ h.isSome
  null := h'.null
  agree := by
    refine Mem.AgreeTo.trans (h'.agree.mono ?_) h.agree
    have := h.cursor
    have := h.cap_ge
    omega
  bytes := by
    rw [List.length_append, Mem.read_add, ← h.cursor, h'.bytes]
    congr 1
    by_cases hbs : bs = []
    · subst hbs; rfl
    · -- the first part lies below the cursor the second part starts from
      rw [h'.agree.read_eq (by have := (h.room hbs).2.2; have := h.cursor; omega), h.bytes]
  room hne := by
    by_cases hcs : cs = []
    · subst hcs
      have hbs : bs ≠ [] := by simpa using hne
      obtain ⟨hw, hd, hc⟩ := h.room hbs
      have hcur := h'.cursor
      have hcap := h'.cap_ge
      refine ⟨hw, h'.isSome hd, ?_⟩
      simp only [List.length_nil] at hcur
      omega
    · obtain ⟨hw, hd, hc⟩ := h'.room hcs
      exact ⟨h.frame.writable ▸ hw, hd, hc⟩
  readOnly hro := (h'.readOnly (h.frame.writable.trans hro)).trans (h.readOnly hro)
  log := h.log.trans h'.log

/-- The data that was there before is still there. -/
theorem Wrote.data_agree {p p' : Parcel} {bs : List UInt8} (h : Wrote p p' bs) (hp : Sound p) :
    Mem.AgreeTo p.dataSize p'.bytes p.bytes := by
  cases hw : p.writable with
  | true => exact h.agree.mono (le_min (hp.behind hw) hp.size_le)
  | false => rw [h.readOnly hw]; exact Mem.AgreeTo.refl _ _

theorem Sound.wrote {p p' : Parcel} {bs : List UInt8} (hp : Sound p) (h : Wrote p p' bs) :
    Sound p' where
  size_le := by
    have := hp.size_le
    have := h.cap_ge
    have hsize := h.size
    by_cases hbs : bs = []
    · subst hbs
      simp only [List.length_nil] at hsize
      omega
    · obtain ⟨hw, -, hc⟩ := h.room hbs
      have := hp.behind hw
      have := h.cursor
      omega
  cap_le := h.cap_le
  cursor_le := by
    have hcur := h.cursor
    by_cases hbs : bs = []
    · subst hbs
      have := hp.cursor_le
      simp only [List.length_nil] at hcur
      omega
    · exact (h.room hbs).2.2.trans h.cap_le
  read_le := h.frame.readCursor ▸ hp.read_le
  max_ge := h.frame.maxDataCapacity ▸ hp.max_ge
  max_lt := h.frame.maxDataCapacity ▸ hp.max_lt
  null := h.null
  behind hw := by
    rw [h.frame.writable] at hw
    rw [h.size, h.cursor]
    exact Nat.add_le_add_right (hp.behind hw) _
  offsets_le := by
    rw [h.frame.offsets]
    exact hp.offsets_le
  next_le := by
    rw [h.frame.nextObjectIdx, Parcel.objectCursor, h.frame.offsets]
    exact hp.next_le
  log_ok a ha hne := by
    obtain ⟨new, hlog, hnew⟩ := h.log
    rw [hlog] at ha
    rcases List.mem_append.1 ha with ha | ha
    · exact (hnew a ha).2
    · exact hp.log_ok a ha hne

/-! ## Growing the block -/

/-- The block has grown and nothing else has changed. -/
structure Grew (p p' : Parcel) : Prop where
  eq : p' = { p with
    data := p'.data, dataCapacity := p'.dataCapacity, heap := p'.heap, blocks := p'.blocks }
  cap_ge : p.dataCapacity ≤ p'.dataCapacity
  cap_le : p'.dataCapacity ≤ ptrdiffMax
  isSome : p.data.isSome = true → p'.data.isSome = true
  null : p'.data = none → p'.dataCapacity = 0
  agree : Mem.AgreeTo p.dataCapacity p'.bytes p.bytes
  readOnly : p.writable = false → p'.data = p.data

theorem Grew.wrote {p p' : Parcel} (h : Grew p p') : Wrote p p' [] where
  frame := by rw [h.eq]; exact ⟨rfl, rfl, rfl, rfl, rfl, rfl, rfl, rfl, rfl⟩
  cursor := by rw [h.eq]; rfl
  size := by rw [h.eq]; rfl
  cap_ge := h.cap_ge
  cap_le := h.cap_le
  isSome := h.isSome
  null := h.null
  agree := h.agree.mono (min_le_right _ _)
  bytes := rfl
  room hne := absurd rfl hne
  readOnly hro := by rw [Parcel.bytes, h.readOnly hro, Parcel.bytes]
  log := by rw [h.eq]; exact LogStores.refl p

theorem le_getWritableBytes {p : Parcel} {n : Nat} :
    n ≤ p.getWritableBytes ↔ n = 0 ∨ p.writeCursor + n ≤ p.dataCapacity := by
  unfold Parcel.getWritableBytes
  split <;> omega

theorem le_getReadableBytes {p : Parcel} {n : Nat} :
    n ≤ p.getReadableBytes ↔ n = 0 ∨ p.readCursor + n ≤ p.dataSize := by
  unfold Parcel.getReadableBytes
  split <;> omega

/-- What the next allocation call returns. -/
def Parcel.grant (p : Parcel) (size : Nat) : Option Mem :=
  if size ≤ ptrdiffMax then p.heap 0 else none

/-- The state after an allocation call. -/
def Parcel.allocated (p : Parcel) : Parcel := { p with heap := fun i => p.heap (i + 1) }

theorem run_alloc (n : Nat) (p : Parcel) : (alloc n).run p = (p.grant n, p.allocated) := rfl

theorem grant_le {p : Parcel} {n : Nat} {m : Mem} (h : p.grant n = some m) : n ≤ ptrdiffMax := by
  by_contra hn
  rw [Parcel.grant, if_neg hn] at h
  exact absurd h (by simp)

/-- The state after the allocator has been asked for a block in place of the current one. -/
def Parcel.reallocated (p : Parcel) (n : Nat) : Parcel :=
  { p.allocated with blocks := p.blocks.realloc p.allocator (p.grant n).isSome }

theorem run_reallocData (n : Nat) (p : Parcel) :
    (reallocData n).run p =
      ((p.grant n).map fun fresh =>
          match p.data with
          | none => fresh
          | some old => old.keep (min p.dataCapacity n) fresh, p.reallocated n) := rfl

/-- The block has been replaced by one of `n` bytes, which were `fresh`. -/
def Parcel.regrown (p : Parcel) (n : Nat) (fresh : Mem) : Parcel :=
  { p.reallocated n with
    data := some (p.data.elim fresh fun old => old.keep (min p.dataCapacity n) fresh)
    dataCapacity := n }

/-- What both callers of `Realloc` do with its result. -/
theorem run_regrow (n : Nat) (p : Parcel) :
    ((do
      match ← reallocData n with
      | some newData =>
          modify fun p => { p with data := some newData, dataCapacity := n }
          return true
      | none => return false) : ParcelM Bool).run p =
      (p.grant n).elim (false, p.reallocated n) fun fresh => (true, p.regrown n fresh) := by
  rw [run_bind, run_reallocData]
  cases p.grant n with
  | none => rfl
  | some fresh =>
      unfold Parcel.regrown
      cases p.data <;> rfl

theorem run_setDataCapacity (p : Parcel) (n : Nat) :
    (setDataCapacity n).run p =
      if p.allocator.isNone = true ∨ p.dataSize ≥ n then (false, p)
      else (p.grant n).elim (false, p.reallocated n) fun fresh => (true, p.regrown n fresh) := by
  simp only [setDataCapacity, run_bind, run_get, run_ite, run_pure]
  rw [← run_regrow]
  rfl

/-- The capacity a request for `n` bytes leads to, if the block has to grow. -/
def Parcel.newCapacity (p : Parcel) (n : Nat) : Nat :=
  calcNewCapacity p.maxDataCapacity (szAdd n p.writeCursor)

/-- A request that leads to no allocation. -/
def Parcel.Declines (p : Parcel) (n : Nat) : Prop :=
  p.newCapacity n ≤ p.dataCapacity ∨ p.newCapacity n < szAdd n p.writeCursor ∨
    p.allocator.isNone = true

instance (p : Parcel) (n : Nat) : Decidable (p.Declines n) := inferInstanceAs (Decidable (_ ∨ _))

theorem run_ensureWritableCapacity (p : Parcel) (n : Nat) :
    (ensureWritableCapacity n).run p =
      if p.writable = false then (false, p)
      else if n ≤ p.getWritableBytes then (p.data.isSome, p)
      else if p.Declines n then (false, p)
      else
        (p.grant (p.newCapacity n)).elim (false, p.reallocated (p.newCapacity n)) fun fresh =>
          (true, p.regrown (p.newCapacity n) fresh) := by
  have hcapacity : calcNewCapacity p.maxDataCapacity (szAdd n p.writeCursor) = p.newCapacity n := rfl
  simp only [ensureWritableCapacity, hcapacity, run_bind, run_get, run_ite, run_pure]
  cases p.writable with
  | false => rfl
  | true =>
      simp only [Bool.not_true, Bool.false_eq_true, if_false, Bool.true_eq_false]
      by_cases hroom : n ≤ p.getWritableBytes
      · rw [if_pos hroom, if_pos hroom]
      · rw [if_neg hroom, if_neg hroom]
        by_cases hcap : p.newCapacity n ≤ p.dataCapacity ∨ p.newCapacity n < szAdd n p.writeCursor
        · have hdeclines : p.Declines n := or_assoc.1 (Or.inl hcap)
          rw [if_pos hcap, if_pos hdeclines]
        · rw [if_neg hcap]
          by_cases hnone : p.allocator.isNone = true
          · have hdeclines : p.Declines n := Or.inr (Or.inr hnone)
            rw [if_pos hnone, if_pos hdeclines]
          · have hdeclines : ¬ p.Declines n := fun h => (or_assoc.2 h).elim hcap hnone
            rw [if_neg hnone, if_neg hdeclines, ← run_regrow]
            rfl

/-- A call that deals with the block only. -/
def Storage (p p' : Parcel) : Prop :=
  p' = { p with
    data := p'.data, dataCapacity := p'.dataCapacity, maxDataCapacity := p'.maxDataCapacity,
    allocator := p'.allocator, heap := p'.heap, blocks := p'.blocks }

theorem ensureWritableCapacity_storage (p : Parcel) (n : Nat) :
    Storage p ((ensureWritableCapacity n).run p).2 := by
  rw [run_ensureWritableCapacity]
  split
  · rfl
  · split
    · rfl
    · split
      · rfl
      · cases p.grant (p.newCapacity n) with
        | none => rfl
        | some fresh => rfl

/-- A block reallocated to at least its old size keeps its contents. -/
theorem grew_regrown {p : Parcel} (hp : Stored p) {n : Nat} (hn : p.dataCapacity ≤ n)
    (hw : p.writable = true) {fresh : Mem} (h : p.grant n = some fresh) :
    Grew p (p.regrown n fresh) := by
  refine ⟨rfl, hn, grant_le h, fun _ => rfl, fun h => absurd h (by simp [Parcel.regrown]), ?_, fun hro => ?_⟩
  · intro i hi
    cases hd : p.data with
    | none =>
        rw [hp.null hd] at hi
        exact absurd hi (Nat.not_lt_zero i)
    | some old =>
        simp only [Parcel.regrown, Parcel.bytes, hd, Option.elim_some, Option.getD_some,
          min_eq_left hn]
        exact Mem.agreeTo_keep _ _ _ i hi
  · rw [hw] at hro
    exact absurd hro (by simp)

theorem Grew.fail {p p' : Parcel} (hp : Stored p)
    (h : p' = { p with heap := p'.heap, blocks := p'.blocks }) : Grew p p' := by
  rw [h]
  exact ⟨rfl, le_rfl, hp.cap_le, id, hp.null, Mem.AgreeTo.refl _ _, fun _ => rfl⟩

/-- What `EnsureWritableCapacity` promises. The request may wrap around, and then a `true` says
nothing about the room. -/
theorem ensureWritableCapacity_spec {p : Parcel} (hp : Stored p) (n : Nat) :
    let r := (ensureWritableCapacity n).run p
    Grew p r.2 ∧ (r.1 = true → p.writable = true ∧ r.2.data.isSome = true ∧
      (n + p.writeCursor < sizeLimit → n ≤ r.2.getWritableBytes)) := by
  have hsame : Grew p p := Grew.fail hp rfl
  rw [run_ensureWritableCapacity]
  split
  · exact ⟨hsame, fun h => absurd h (by simp)⟩
  · rename_i hw
    rw [Bool.not_eq_false] at hw
    split
    · rename_i hroom
      exact ⟨hsame, fun h => ⟨hw, h, fun _ => hroom⟩⟩
    · split
      · exact ⟨hsame, fun h => absurd h (by simp)⟩
      · rename_i hdeclines
        obtain ⟨hgt, hge, -⟩ := by simpa only [Parcel.Declines, not_or] using hdeclines
        cases hg : p.grant (p.newCapacity n) with
        | none => exact ⟨Grew.fail hp rfl, fun h => absurd h (by simp)⟩
        | some fresh =>
            refine ⟨grew_regrown hp (Nat.le_of_not_le hgt) hw hg, fun _ => ⟨hw, rfl, fun hlt => ?_⟩⟩
            rw [szAdd_of_lt hlt] at hge
            refine le_getWritableBytes.2 (Or.inr ?_)
            show p.writeCursor + n ≤ p.newCapacity n
            omega

/-! ## Storing into the block -/

/-- A store of `n` bytes at the write cursor, within the block. -/
theorem wrote_store {p : Parcel} (hp : Sound p) (hw : p.writable = true)
    (hd : p.data.isSome = true) {n : Nat} (hn : p.writeCursor + n ≤ p.dataCapacity) (src : Mem) :
    Wrote p ((do storeBytes p.writeCursor n src; advanceWrite n).run p).2 (src.read 0 n) := by
  obtain ⟨m, hm⟩ := Option.isSome_iff_exists.1 hd
  have hcap := hp.cap_le
  have hsize := hp.behind hw
  have hlim : p.writeCursor + n < sizeLimit := by
    simp only [ptrdiffMax, sizeLimit] at *
    omega
  simp only [storeBytes, advanceWrite, run_bind, run_modify]
  refine
    { frame := ⟨rfl, rfl, rfl, rfl, rfl, rfl, rfl, rfl, rfl⟩
      cursor := ?_, size := ?_, cap_ge := le_rfl, cap_le := hcap
      isSome := fun _ => by simp [hm], null := fun h => by simp [hm] at h
      agree := ?_, bytes := ?_, room := fun _ => ⟨hw, by simp [hm], ?_⟩
      readOnly := fun hro => ?_, log := ?_ }
  · rw [Mem.length_read]
    exact szAdd_of_lt hlim
  · rw [Mem.length_read]
    exact szAdd_of_lt (by omega)
  · simp only [Parcel.bytes, hm, Option.map_some, Option.getD_some]
    exact (Mem.agreeTo_write _ _ _ _).mono (min_le_left _ _)
  · simp only [Parcel.bytes, hm, Option.map_some, Option.getD_some, Mem.length_read]
    exact Mem.read_write_self _ _ _ _
  · show szAdd p.writeCursor n ≤ p.dataCapacity
    rw [szAdd_of_lt hlim]
    exact hn
  · rw [hw] at hro
    exact absurd hro (by simp)
  · refine ⟨[_], rfl, fun a ha => ?_⟩
    rw [List.mem_singleton.1 ha]
    refine ⟨rfl, ?_⟩
    simp only [Access.InBounds, Parcel.blockSize, hd, if_true]
    exact Or.inr hn

/-! ## Padding -/

theorem getPadSize_eq {size : Nat} (h : size + 3 < sizeLimit) : getPadSize size = padOf size := by
  unfold getPadSize padOf
  rw [szAdd_of_lt h, szSub_of_le (by omega)]
  omega

/-- A size that passes the overflow test of the buffer writers is padded without wrapping. -/
theorem size_of_guard {size : Nat} (h0 : 0 < size)
    (h : ¬ (szAdd size (getPadSize size) < size ∨ szAdd size (getPadSize size) < getPadSize size)) :
    size + 3 < sizeLimit := by
  by_contra hbig
  have hlt : size < sizeLimit := by
    have := szAdd_lt size (getPadSize size)
    omega
  have hpad : getPadSize size = sizeLimit - size := by
    have hwrap : szAdd size 3 / 4 * 4 = 0 := by
      simp only [szAdd, sizeLimit] at *
      omega
    rw [getPadSize, hwrap, szSub_of_lt h0, Nat.sub_zero]
  have hsum : szAdd size (getPadSize size) = 0 := by
    rw [hpad, szAdd, show size + (sizeLimit - size) = sizeLimit by omega, Nat.mod_self]
  omega

/-- The read-modify-write of `WritePadBytes`, on the four bytes it covers. -/
theorem leBytes_and_padMask {l : List UInt8} (hl : l.length = 4) {pad : Nat} (hpad : pad < 4) :
    leBytes 4 (leNat l &&& padMask.getD pad 0) = l.take (4 - pad) ++ List.replicate pad 0 := by
  have hmask : padMask.getD pad 0 = 2 ^ (8 * (4 - pad)) - 1 := by
    interval_cases pad <;> rfl
  have hlen : (l.take (4 - pad)).length = 4 - pad := by
    rw [List.length_take, hl]
    omega
  have hpow : 2 ^ (8 * (4 - pad)) = 256 ^ (4 - pad) := by
    rw [Nat.pow_mul]
  rw [hmask, Nat.and_two_pow_sub_one_eq_mod, hpow, leNat_mod_pow]
  have := leBytes_length_add (l.take (4 - pad)) pad
  rwa [hlen, show 4 - pad + pad = 4 by omega] at this

/-- Overwriting the last word with its first bytes and `pad` zeros only clears the padding. -/
theorem write_padded_word (m : Mem) {c pad : Nat} (hpad : pad < 4) (hc : 4 ≤ c + pad) (i : Nat) :
    m.write (c + pad - 4) 4
      (Mem.ofList ((m.read (c + pad - 4) 4).take (4 - pad) ++ List.replicate pad 0)) i =
      if c ≤ i ∧ i < c + pad then 0 else m i := by
  unfold Mem.write
  by_cases hin : c + pad - 4 ≤ i ∧ i < c + pad - 4 + 4
  · rw [if_pos hin, Mem.take_read _ _ _ _ (by omega), Mem.ofList, List.getD_eq_getElem?_getD]
    by_cases hlow : i < c
    · rw [List.getElem?_append_left (by rw [Mem.length_read]; omega), Mem.getElem?_read,
        if_pos (by omega), if_neg (by omega)]
      simp only [Option.getD_some]
      congr 1
      omega
    · rw [List.getElem?_append_right (by rw [Mem.length_read]; omega), Mem.length_read,
        List.getElem?_replicate, if_pos (by omega), if_pos (by omega)]
      rfl
  · rw [if_neg hin, if_neg (by omega)]

/-- **What `WritePadBytes` does to the bytes**: those of the padding are cleared. -/
theorem bytes_writePadBytes {p : Parcel} (hd : p.data.isSome = true) {pad : Nat} (hpad : pad < 4)
    (hc : 4 ≤ p.writeCursor + pad) (hlim : p.writeCursor + pad < sizeLimit) (i : Nat) :
    ((writePadBytes pad).run p).2.bytes i =
      if p.writeCursor ≤ i ∧ i < p.writeCursor + pad then 0 else p.bytes i := by
  obtain ⟨m, hm⟩ := Option.isSome_iff_exists.1 hd
  have hpos : szSub (szAdd p.writeCursor pad) 4 = p.writeCursor + pad - 4 := by
    rw [szAdd_of_lt hlim, szSub_of_le hc]
  simp only [writePadBytes, storeBytes, advanceWrite, run_bind, run_get, run_modify, hpos]
  rw [leBytes_and_padMask (Mem.length_read _ _ _) hpad]
  simp only [Parcel.bytes, hm, Option.map_some, Option.getD_some]
  exact write_padded_word m hpad hc i

/-- The word it rewrites ends where the padding ends. -/
theorem log_writePadBytes {p : Parcel} {pad : Nat} (hc : 4 ≤ p.writeCursor + pad)
    (hlim : p.writeCursor + pad < sizeLimit) :
    ((writePadBytes pad).run p).2.log =
      ⟨.store, p.writeCursor + pad - 4, 4, p.blockSize⟩ :: p.log := by
  have hpos : szSub (szAdd p.writeCursor pad) 4 = p.writeCursor + pad - 4 := by
    rw [szAdd_of_lt hlim, szSub_of_le hc]
  simp only [writePadBytes, storeBytes, advanceWrite, run_bind, run_get, run_modify, hpos]

theorem wrote_pad {p : Parcel} (hp : Sound p) (hw : p.writable = true)
    (hd : p.data.isSome = true) {pad : Nat} (hpad : pad < 4) (hc : 4 ≤ p.writeCursor + pad)
    (hroom : p.writeCursor + pad ≤ p.dataCapacity) :
    Wrote p ((writePadBytes pad).run p).2 (List.replicate pad 0) := by
  obtain ⟨m, hm⟩ := Option.isSome_iff_exists.1 hd
  have hcap := hp.cap_le
  have hsize := hp.behind hw
  have hlim : p.writeCursor + pad < sizeLimit := by
    simp only [ptrdiffMax, sizeLimit] at *
    omega
  have hbytes := bytes_writePadBytes hd hpad hc hlim
  have hsome : ((writePadBytes pad).run p).2.data.isSome = true := by
    simp [writePadBytes, storeBytes, advanceWrite, hm]
  refine
    { frame := ⟨rfl, rfl, rfl, rfl, rfl, rfl, rfl, rfl, rfl⟩
      cursor := ?_, size := ?_, cap_ge := le_rfl, cap_le := hcap
      isSome := fun _ => hsome, null := fun h => by simp [h] at hsome
      agree := ?_, bytes := ?_, room := fun _ => ⟨hw, hsome, ?_⟩
      readOnly := fun hro => ?_, log := ?_ }
  · rw [List.length_replicate]
    exact szAdd_of_lt hlim
  · rw [List.length_replicate]
    show szAdd p.dataSize pad = p.dataSize + pad
    exact szAdd_of_lt (by omega)
  · intro i hi
    rw [hbytes, if_neg (by omega)]
  · refine List.ext_getElem? fun i => ?_
    rw [List.length_replicate, Mem.getElem?_read, List.getElem?_replicate]
    by_cases hi : i < pad
    · rw [if_pos hi, if_pos hi, hbytes, if_pos (by omega)]
    · rw [if_neg hi, if_neg hi]
  · show szAdd p.writeCursor pad ≤ p.dataCapacity
    rw [szAdd_of_lt hlim]
    exact hroom
  · rw [hw] at hro
    exact absurd hro (by simp)
  · refine ⟨[_], log_writePadBytes hc hlim, fun a ha => ?_⟩
    rw [List.mem_singleton.1 ha]
    refine ⟨rfl, ?_⟩
    simp only [Access.InBounds, Parcel.blockSize, hd, if_true]
    omega

end CUtils
