import CUtils.Parcel.Room

/-!
# The pieces of a writer

A writer is a sequence of pieces, each with a room test of its own: a scalar, a copied block with
its padding, the padding of a vector. Each piece appends its bytes or nothing, and the room it
finds decides which (`Appends`). The exception is a block whose terminator is wider than four
bytes: its data is copied before the terminator is refused (`unterminated_appends`).
-/

namespace CUtils

open StateRun ByteMemory Parcel

/-! ## Copying -/

@[simp] theorem room_storeBytes (p : Parcel) (pos n : Nat) (src : Mem) :
    ((storeBytes pos n src).run p).2.room = p.room := by
  simp [storeBytes, Parcel.room]

theorem room_advanceWrite {p : Parcel} {n : Nat} (h : p.writeCursor + n < sizeLimit) :
    ((advanceWrite n).run p).2.room = { p.room with cursor := p.writeCursor + n } := by
  simp [advanceWrite, Parcel.room, szAdd_of_lt h]

theorem room_writePadBytes {p : Parcel} {n : Nat} (h : p.writeCursor + n < sizeLimit) :
    ((writePadBytes n).run p).2.room = { p.room with cursor := p.writeCursor + n } := by
  simp [writePadBytes, storeBytes, advanceWrite, Parcel.room, szAdd_of_lt h]

theorem Sound.room_le {p : Parcel} (hp : Sound p) {n : Nat} (h : p.writeCursor + n ≤ p.dataCapacity) :
    p.writeCursor + n < sizeLimit := by
  have := hp.cap_le
  simp only [ptrdiffMax, sizeLimit] at *
  omega

variable [Target]

/-- In the state `q`, `body` appends `bs` and returns `true` if `ok`, and otherwise does neither. -/
structure Puts (body : ParcelM Bool) (bs : List UInt8) (ok : Bool) (q : Parcel) : Prop where
  wrote : Wrote q (body.run q).2 (if (body.run q).1 then bs else [])
  result : (body.run q).1 = ok
  room : (body.run q).1 = true →
    (body.run q).2.room = { q.room with cursor := q.writeCursor + bs.length }

/-- The destination of `memcpy_s` is null, empty or over-long. -/
def Parcel.BadDest (p : Parcel) : Prop :=
  p.data.isNone = true ∨ p.getWritableBytes = 0 ∨ p.getWritableBytes > Target.memMaxLen

instance (p : Parcel) : Decidable p.BadDest := inferInstanceAs (Decidable (_ ∨ _))

theorem run_writeDataBytes (data : Mem) (size : Nat) (p : Parcel) :
    (writeDataBytes data size).run p =
      if p.BadDest then (false, p)
      else if size > p.getWritableBytes then
        (false, ((storeBytes p.writeCursor p.getWritableBytes fun _ => 0).run p).2)
      else (true, ((do storeBytes p.writeCursor size data; advanceWrite size).run p).2) := by
  simp only [writeDataBytes, Parcel.BadDest, run_bind, run_get, run_ite, run_pure]

theorem writeDataBytes_puts {p : Parcel} (hp : Sound p) (hw : p.writable = true)
    (hd : p.data.isSome = true) (data : Mem) (size : Nat) :
    Puts (writeDataBytes data size) (data.read 0 size) (p.room.copies size) p := by
  obtain ⟨m, hm⟩ := Option.isSome_iff_exists.1 hd
  have hfree := (le_getWritableBytes (p := p) (n := p.getWritableBytes)).1 le_rfl
  have hcopies : p.room.copies size =
      decide (p.getWritableBytes ≠ 0 ∧ p.getWritableBytes ≤ Target.memMaxLen ∧
        size ≤ p.getWritableBytes) := by
    rw [Room.copies, free_room]
  have hrun := run_writeDataBytes data size p
  by_cases hbad : p.BadDest
  · rw [if_pos hbad] at hrun
    refine ⟨by simpa [hrun] using Wrote.refl hp, ?_, by simp [hrun]⟩
    rw [hrun, hcopies, eq_comm, decide_eq_false_iff_not]
    rintro ⟨hne, hle, -⟩
    rcases hbad with hbad | hbad | hbad
    · simp [hm] at hbad
    · exact hne hbad
    · omega
  · have hne : p.getWritableBytes ≠ 0 := fun h => hbad (Or.inr (Or.inl h))
    have hle : p.getWritableBytes ≤ Target.memMaxLen :=
      Nat.le_of_not_lt fun h => hbad (Or.inr (Or.inr h))
    by_cases hbig : size > p.getWritableBytes
    · -- the destination is wiped, from the cursor to the end of the block
      rw [if_neg hbad, if_pos hbig] at hrun
      refine ⟨?_, ?_, by simp [hrun]⟩
      · rw [hrun]
        simp only [Bool.false_eq_true, if_false, storeBytes, run_modify]
        refine
          { frame := ⟨rfl, rfl, rfl, rfl, rfl, rfl, rfl, rfl, rfl⟩
            cursor := rfl, size := rfl, cap_ge := le_rfl, cap_le := hp.cap_le
            isSome := fun _ => by simp [hm], null := fun h => by simp [hm] at h
            agree := ?_, bytes := rfl, room := fun h => absurd rfl h
            readOnly := fun hro => ?_, log := ?_ }
        · simp only [Parcel.bytes, hm, Option.map_some, Option.getD_some]
          exact (Mem.agreeTo_write _ _ _ _).mono (min_le_left _ _)
        · rw [hw] at hro
          exact absurd hro (by simp)
        · refine ⟨[_], rfl, fun a ha => ?_⟩
          rw [List.mem_singleton.1 ha]
          refine ⟨rfl, ?_⟩
          simp only [Access.InBounds, Parcel.blockSize, hd, if_true]
          omega
      · rw [hrun, hcopies, eq_comm, decide_eq_false_iff_not]
        omega
    · have hroom : p.writeCursor + size ≤ p.dataCapacity := by omega
      rw [if_neg hbad, if_neg hbig] at hrun
      refine ⟨?_, ?_, fun _ => ?_⟩
      · rw [hrun]
        exact wrote_store hp hw hd hroom data
      · rw [hrun, hcopies, eq_comm, decide_eq_true_iff]
        exact ⟨hne, hle, by omega⟩
      · rw [hrun, Mem.length_read]
        simp only [run_bind]
        rw [room_advanceWrite, room_storeBytes]
        · rfl
        · exact hp.room_le hroom

/-- Two copies in a row are one copy, once there is room for both. -/
theorem Puts.append {c c' : ParcelM Bool} {bs bs' : List UInt8} {q : Parcel}
    (h : Puts c bs (q.room.copies bs.length) q)
    (h' : Puts c' bs' ((c.run q).2.room.copies bs'.length) (c.run q).2) (hne : bs' ≠ [])
    (hroom : bs.length ≤ q.getWritableBytes → bs.length + bs'.length ≤ q.getWritableBytes) :
    Puts (c.andThen c') (bs ++ bs') (q.room.copies (bs ++ bs').length) q := by
  have hrun := run_andThen c c' q
  have hlen : 0 < bs'.length := List.length_pos_of_ne_nil hne
  cases hc : (c.run q).1 with
  | false =>
      rw [hc] at hrun
      have hw := h.wrote
      have hok := h.result
      rw [hc] at hw hok
      refine ⟨by simpa [hrun] using hw, ?_, by simp [hrun]⟩
      rw [hrun]
      simp only [Bool.false_eq_true, if_false]
      rw [eq_comm, Room.copies, decide_eq_false_iff_not] at hok ⊢
      rw [List.length_append]
      rintro ⟨h1, h2, h3⟩
      exact hok ⟨h1, h2, by omega⟩
  | true =>
      rw [hc] at hrun
      simp only [if_true] at hrun
      have hroom1 := h.room hc
      have hok := h.result
      rw [hc, eq_comm, Room.copies, decide_eq_true_iff, free_room] at hok
      obtain ⟨h1, h2, h3⟩ := hok
      have hfits := hroom h3
      have hfree := le_getWritableBytes.1 hfits
      have hfree' : (c.run q).2.room.free = q.getWritableBytes - bs.length := by
        rw [hroom1, Room.free, Parcel.getWritableBytes]
        simp only [room_capacity]
        split <;> split <;> omega
      -- what is left is smaller, so the second copy is accepted too
      have hok' : (c'.run (c.run q).2).1 = true := by
        rw [h'.result, Room.copies, hfree', decide_eq_true_iff]
        omega
      have hwrote := h.wrote
      have hwrote' := h'.wrote
      rw [hc] at hwrote
      rw [hok'] at hwrote'
      refine ⟨?_, ?_, fun _ => ?_⟩
      · rw [hrun, hok']
        exact hwrote.trans hwrote'
      · rw [hrun, hok', eq_comm, Room.copies, free_room, decide_eq_true_iff, List.length_append]
        exact ⟨h1, h2, hfits⟩
      · rw [hrun, h'.room hok', hroom1, List.length_append]
        have := hwrote.cursor
        simp only [if_true] at this
        simp [this, Nat.add_assoc]

omit [Target] in
theorem writePadBytes_puts {p : Parcel} (hp : Sound p) (hw : p.writable = true)
    (hd : p.data.isSome = true) {pad : Nat} (hpad : pad < 4) (hc : 4 ≤ p.writeCursor + pad)
    (hroom : p.writeCursor + pad ≤ p.dataCapacity) :
    Puts (do writePadBytes pad; return true) (List.replicate pad 0) true p := by
  refine ⟨wrote_pad hp hw hd hpad hc hroom, rfl, fun _ => ?_⟩
  rw [List.length_replicate]
  exact room_writePadBytes (hp.room_le hroom)

/-! ## Pieces -/

/-- The call has already put `c` bytes into the block. -/
def Started (c : Nat) (p : Parcel) : Prop :=
  0 < c → c ≤ p.writeCursor ∧ p.writeCursor ≤ p.dataCapacity

omit [Target] in
theorem started_zero (p : Parcel) : Started 0 p := fun h => absurd h (lt_irrefl 0)

omit [Target] in
theorem Wrote.started {p p' : Parcel} {bs : List UInt8} (h : Wrote p p' bs) :
    Started bs.length p' := by
  intro hpos
  have hcur := h.cursor
  exact ⟨by omega, (h.room (List.ne_nil_of_length_pos hpos)).2.2⟩

omit [Target] in
theorem Started.mono {c c' : Nat} {p : Parcel} (h : Started c p) (hc : c' ≤ c) : Started c' p := by
  intro hpos
  obtain ⟨hle, hcap⟩ := h (by omega)
  exact ⟨by omega, hcap⟩

omit [Target] in
theorem Started.wrote {c : Nat} {p p' : Parcel} {bs : List UInt8} (hs : Started c p)
    (h : Wrote p p' bs) : Started c p' := by
  intro hpos
  obtain ⟨hle, hcap⟩ := hs hpos
  have hcur := h.cursor
  have hge := h.cap_ge
  refine ⟨by omega, ?_⟩
  by_cases hbs : bs = []
  · subst hbs
    simp only [List.length_nil] at hcur
    omega
  · exact (h.room hbs).2.2

/-- Once `c` bytes are in, `m` appends `bs` when the room meets `need`, and nothing when it does
not. -/
structure Appends (c : Nat) (m : ParcelM Bool) (bs : List UInt8) (need : Need) : Prop where
  wrote : ∀ {p}, Sound p → Started c p →
    Wrote p (m.run p).2 (if (m.run p).1 then bs else [])
  room : ∀ {p}, Sound p → Started c p →
    p.room.take need = if (m.run p).1 then some (m.run p).2.room else none

/-- Most pieces: ask for `n` bytes, then put `bs` into the room that was granted. A request that
wraps around is granted without regard to the room. -/
theorem appends_of_ensure {c n : Nat} {copied : Option Nat} {body : ParcelM Bool} {bs : List UInt8}
    (hbody : ∀ {q}, Sound q → Started c q → q.writable = true → q.data.isSome = true →
      (n + q.writeCursor < sizeLimit → n ≤ q.getWritableBytes) →
      Puts body bs (copied.all q.room.copies) q) :
    Appends c ((ensureWritableCapacity n).andThen body) bs (.room n copied bs.length) := by
  have key : ∀ {p}, Sound p → Started c p →
      Wrote p (((ensureWritableCapacity n).andThen body).run p).2
        (if (((ensureWritableCapacity n).andThen body).run p).1 then bs else []) ∧
      p.room.take (.room n copied bs.length) =
        if (((ensureWritableCapacity n).andThen body).run p).1 then
          some (((ensureWritableCapacity n).andThen body).run p).2.room else none := by
    intro p hp hc
    obtain ⟨hgrew, hok⟩ := ensureWritableCapacity_spec hp.stored n
    have hfirst := hgrew.wrote
    rw [run_andThen, Room.take, ← ensureWritableCapacity_room p n]
    cases hr : ((ensureWritableCapacity n).run p).1 with
    | false => exact ⟨by simpa using hfirst, by simp⟩
    | true =>
        obtain ⟨hw, hd, hroom⟩ := hok hr
        have hcur : ((ensureWritableCapacity n).run p).2.writeCursor = p.writeCursor := by
          simpa using hfirst.cursor
        have hputs := hbody (hp.wrote hfirst) (hc.wrote hfirst) (hfirst.frame.writable.trans hw) hd
          (by rwa [hcur])
        have hres := hputs.result
        simp only [if_true, true_and]
        refine ⟨by simpa using hfirst.trans hputs.wrote, ?_⟩
        rw [← hres]
        by_cases hb : (body.run ((ensureWritableCapacity n).run p).2).1 = true
        · rw [if_pos hb, if_pos hb, hputs.room hb]
          rfl
        · rw [if_neg hb, if_neg hb]
  exact ⟨fun hp hc => (key hp hc).1, fun hp hc => (key hp hc).2⟩

theorem Appends.mono {c c' : Nat} {m : ParcelM Bool} {bs : List UInt8} {need : Need}
    (h : Appends c m bs need) (hc : c ≤ c') : Appends c' m bs need :=
  ⟨fun hp hs => h.wrote hp (hs.mono hc), fun hp hs => h.room hp (hs.mono hc)⟩

/-- A call that returns `false` without storing anything. -/
theorem Appends.refused {m : ParcelM Bool} {bs : List UInt8}
    (h : ∀ {p}, Sound p → Wrote p (m.run p).2 [] ∧ (m.run p).1 = false) :
    Appends 0 m bs .refused := by
  refine ⟨fun hp _ => ?_, fun hp _ => ?_⟩
  · rw [(h hp).2]
    simpa using (h hp).1
  · rw [(h hp).2]
    simp [Room.take]

theorem appends_false {bs : List UInt8} : Appends 0 (pure false) bs .refused :=
  Appends.refused fun hp => ⟨Wrote.refl hp, rfl⟩

/-- The need of `Write<T>`. -/
def wordNeed (width : Nat) : Need := .room width none width

theorem write_appends {α : Type} [Scalar α] (v : α) :
    Appends 0 (write v) (Scalar.encode v) (wordNeed (Scalar.width α)) := by
  have hread : (Mem.ofList (Scalar.encode v)).read 0 (Scalar.width α) = Scalar.encode v := by
    rw [← Scalar.length_encode v, Mem.read_ofList]
  have hlen : wordNeed (Scalar.width α) = .room (Scalar.width α) none (Scalar.encode v).length := by
    rw [wordNeed, Scalar.length_encode]
  unfold write
  rw [unless_eq_andThen, hlen]
  refine appends_of_ensure fun {q} hq _ hw hd hroom => ?_
  have hlim : Scalar.width α + q.writeCursor < sizeLimit := by
    have := Scalar.width_le (α := α)
    have := hq.cursor_le
    simp only [ptrdiffMax, sizeLimit] at *
    omega
  have hpos := Scalar.width_pos (α := α)
  have hle := le_getWritableBytes.1 (hroom hlim)
  have hstore := wrote_store hq hw hd (n := Scalar.width α) (by omega)
    (Mem.ofList (Scalar.encode v))
  rw [hread] at hstore
  refine ⟨by simpa using hstore, rfl, fun _ => ?_⟩
  simp only [run_bind, run_get, run_pure]
  rw [room_advanceWrite, room_storeBytes, Scalar.length_encode]
  · rfl
  · exact hq.room_le (by omega)

/-! ## Blocks -/

/-- The need of a block of `size` bytes and its padding. -/
def blockNeed (size : Nat) : Need :=
  if size = 0 ∨ sizeLimit ≤ size + 3 then .refused
  else .room (size + padOf size) (some size) (size + padOf size)

/-- A block and its padding, once the size has passed the overflow test. -/
theorem padded_appends {size : Nat} (h0 : size ≠ 0) (hsize : size + 3 < sizeLimit)
    {copy : ParcelM Bool} {bs : List UInt8} (hbs : bs.length = size)
    (hcopy : ∀ {q}, Sound q → q.writable = true → q.data.isSome = true →
      (size + padOf size + q.writeCursor < sizeLimit → size + padOf size ≤ q.getWritableBytes) →
      Puts copy bs (q.room.copies size) q) :
    Appends 0
      ((ensureWritableCapacity (size + padOf size)).andThen
        (copy.andThen do writePadBytes (padOf size); return true))
      (bs ++ List.replicate (padOf size) 0) (blockNeed size) := by
  have hneed : blockNeed size = .room (size + padOf size) (some size)
      (bs ++ List.replicate (padOf size) 0).length := by
    rw [blockNeed, if_neg (by omega), List.length_append, hbs, List.length_replicate]
  rw [hneed]
  refine appends_of_ensure fun {q} hq _ hw hd hroom => ?_
  have hputs := hcopy hq hw hd hroom
  rw [show Option.all q.room.copies (some size) = q.room.copies size from rfl, ← hputs.result]
  have hwrote := hputs.wrote
  have hrun := run_andThen copy (do writePadBytes (padOf size); return true) q
  cases hc : (copy.run q).1 with
  | false =>
      rw [hc, if_neg (by simp)] at hrun hwrote
      refine ⟨?_, by rw [hrun], fun h => ?_⟩
      · rw [hrun]
        simpa using hwrote
      · rw [hrun] at h
        exact absurd h (by simp)
  | true =>
      rw [hc] at hrun hwrote
      simp only [if_true] at hrun hwrote
      have hcop := hputs.result
      rw [hc, eq_comm, Room.copies, decide_eq_true_iff, free_room] at hcop
      have hcap := hq.cap_le
      have hle := le_getWritableBytes.1 hcop.2.2
      have hpad := padOf_lt size
      have hmod := padOf_add_mod size
      -- what could be copied is no request that wrapped around
      have hfits := le_getWritableBytes.1 (hroom (by
        simp only [ptrdiffMax, sizeLimit] at *
        omega))
      have hcur := hwrote.cursor
      have hge := hwrote.cap_ge
      rw [hbs] at hcur
      have hlast := writePadBytes_puts (hq.wrote hwrote) (hwrote.frame.writable.trans hw)
        (hwrote.isSome hd) hpad (by omega) (by omega)
      refine ⟨?_, by rw [hrun, hlast.result], fun _ => ?_⟩
      · rw [hrun, hlast.result]
        exact hwrote.trans (by simpa using hlast.wrote)
      · rw [hrun, hlast.room hlast.result, hputs.room hc, List.length_append, hcur, hbs]
        simp [Nat.add_assoc]

theorem writeBuffer_appends (data : Mem) (size : Nat) :
    Appends 0 (writeBuffer (some data) size)
      (data.read 0 size ++ List.replicate (padOf size) 0) (blockNeed size) := by
  simp only [writeBuffer]
  by_cases h0 : size = 0
  · rw [if_pos h0, blockNeed, if_pos (Or.inl h0)]
    exact appends_false
  · rw [if_neg h0]
    by_cases hguard : szAdd size (getPadSize size) < size ∨
        szAdd size (getPadSize size) < getPadSize size
    · rw [if_pos hguard, blockNeed, if_pos]
      · exact appends_false
      · refine Or.inr (Nat.le_of_not_lt fun hlim => ?_)
        rw [getPadSize_eq hlim, szAdd_of_lt (by have := padOf_lt size; omega)] at hguard
        omega
    · have hlim := size_of_guard (Nat.pos_of_ne_zero h0) hguard
      rw [if_neg hguard, getPadSize_eq hlim, szAdd_of_lt (by have := padOf_lt size; omega)]
      simp only [unless_eq_andThen]
      exact padded_appends h0 hlim (Mem.length_read _ _ _) fun hq hw hd _ =>
        writeDataBytes_puts hq hw hd data size

/-- What `WriteBufferAddTerminator` does once it has checked its arguments. -/
theorem writeBufferAddTerminator_eq (data : Mem) {size typeSize : Nat} (h0 : typeSize ≠ 0)
    (hle : typeSize ≤ size) (hsize : size + 3 < sizeLimit) :
    writeBufferAddTerminator (some data) size typeSize =
      (ensureWritableCapacity (size + padOf size)).andThen
        ((writeDataBytes data (size - typeSize)).andThen
          (if typeSize > 4 then pure false
            else (writeDataBytes (fun _ => 0) typeSize).andThen do
              writePadBytes (padOf size)
              return true)) := by
  have hpad := padOf_lt size
  have hguard : ¬ (szAdd size (getPadSize size) < size ∨
      szAdd size (getPadSize size) < getPadSize size) := by
    rw [getPadSize_eq hsize, szAdd_of_lt (by omega)]
    omega
  simp only [writeBufferAddTerminator]
  rw [if_neg (by omega), if_neg hguard, getPadSize_eq hsize, szAdd_of_lt (by omega)]
  simp only [unless_eq_andThen]

theorem writeBufferAddTerminator_refused (data : Mem) {size typeSize : Nat}
    (h : typeSize = 0 ∨ size < typeSize ∨ sizeLimit ≤ size + 3) :
    writeBufferAddTerminator (some data) size typeSize = pure false := by
  simp only [writeBufferAddTerminator]
  by_cases hargs : typeSize = 0 ∨ size < typeSize
  · rw [if_pos hargs]
  · rw [if_neg hargs]
    by_cases hguard : szAdd size (getPadSize size) < size ∨
        szAdd size (getPadSize size) < getPadSize size
    · rw [if_pos hguard]
    · have := size_of_guard (by omega) hguard
      omega

/-- A block that ends in a terminator of at most four bytes. -/
theorem terminated_appends (data : Mem) {size typeSize : Nat} (h0 : typeSize ≠ 0)
    (hle : typeSize ≤ size) (h4 : typeSize ≤ 4) :
    Appends 0 (writeBufferAddTerminator (some data) size typeSize)
      (data.read 0 (size - typeSize) ++ List.replicate typeSize 0 ++
        List.replicate (padOf size) 0) (blockNeed size) := by
  by_cases hlim : size + 3 < sizeLimit
  · rw [writeBufferAddTerminator_eq data h0 hle hlim, if_neg (by omega), ← Prog.andThen_assoc
      (writeDataBytes data (size - typeSize))]
    have hlen : (data.read 0 (size - typeSize) ++ List.replicate typeSize (0 : UInt8)).length =
        size := by
      rw [List.length_append, Mem.length_read, List.length_replicate]
      omega
    refine padded_appends (by omega) hlim hlen fun {q} hq hw hd hroom => ?_
    have hfirst := writeDataBytes_puts hq hw hd data (size - typeSize)
    have hwrote := hfirst.wrote
    have hsecond := writeDataBytes_puts (hq.wrote hwrote) (hwrote.frame.writable.trans hw)
      (hwrote.isSome hd) (fun _ => 0) typeSize
    rw [Mem.read_const] at hsecond
    rw [show q.room.copies size = q.room.copies (data.read 0 (size - typeSize) ++
      List.replicate typeSize (0 : UInt8)).length by rw [hlen]]
    refine Puts.append (by rwa [Mem.length_read]) (by rwa [List.length_replicate])
      (by simpa using h0) fun hfree => ?_
    -- what is left after the first copy is not short of the terminator
    rw [Mem.length_read] at hfree
    rw [Mem.length_read, List.length_replicate]
    have hcur := hq.cursor_le
    have hcap := hq.cap_le
    have hpad := padOf_lt size
    have hfirst := le_getWritableBytes.1 hfree
    have hall := hroom (by
      simp only [ptrdiffMax, sizeLimit] at *
      omega)
    omega
  · rw [writeBufferAddTerminator_refused data (by omega), blockNeed, if_pos (by omega)]
    exact appends_false

/-- A terminator of more than four bytes is noticed after the data has been copied. -/
theorem unterminated_appends (data : Mem) (request k : Nat) :
    Appends 0 ((ensureWritableCapacity request).andThen (writeDataBytes data k))
      (data.read 0 k) (.room request (some k) k) := by
  have h : Appends 0 ((ensureWritableCapacity request).andThen (writeDataBytes data k))
      (data.read 0 k) (.room request (some k) (data.read 0 k).length) :=
    appends_of_ensure fun hq _ hw hd _ => writeDataBytes_puts hq hw hd data k
  rwa [Mem.length_read] at h

/-- With no data before such a terminator nothing is stored. -/
theorem only_terminator_appends (data : Mem) {typeSize : Nat} (h4 : ¬ typeSize ≤ 4)
    (hlim : typeSize + 3 < sizeLimit) :
    Appends 0 (writeBufferAddTerminator (some data) typeSize typeSize) [] .refused := by
  refine Appends.refused fun {p} hp => ?_
  have hwrote := (unterminated_appends data (typeSize + padOf typeSize) 0).wrote hp (started_zero p)
  rw [writeBufferAddTerminator_eq data (by omega) le_rfl hlim, if_pos (by omega), Nat.sub_self,
    ← Prog.andThen_assoc, run_andThen]
  simp only [Mem.read_zero, ite_self] at hwrote
  split
  · exact ⟨hwrote, rfl⟩
  · exact ⟨hwrote, rfl⟩

/-- The padding a vector ends with. -/
theorem pad_appends (size : Nat) :
    Appends 4 ((ensureWritableCapacity (padOf size)).andThen do
        writePadBytes (padOf size)
        return true)
      (List.replicate (padOf size) 0) (wordNeed (padOf size)) := by
  have hlen : wordNeed (padOf size) =
      .room (padOf size) none (List.replicate (padOf size) (0 : UInt8)).length := by
    rw [wordNeed, List.length_replicate]
  rw [hlen]
  refine appends_of_ensure fun {q} hq hc hw hd hroom => ?_
  have hpad := padOf_lt size
  have hcur := hq.cursor_le
  have hle := le_getWritableBytes.1 (hroom (by
    simp only [ptrdiffMax, sizeLimit] at *
    omega))
  obtain ⟨hstart, hroom'⟩ := hc (by decide)
  exact writePadBytes_puts hq hw hd hpad (by omega) (by omega)

end CUtils
