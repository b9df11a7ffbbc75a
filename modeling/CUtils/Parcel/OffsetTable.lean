import CUtils.Lib.SlotTable
import CUtils.Parcel.UserCode

/-!
# The offset table and its allocation

A slot of the table is reserved by `EnsureObjectsCapacity` before the `Marshalling` of a remote
object runs, and used by `WriteObjectOffset` after it. In between, the objects that the
`Marshalling` writes itself may use the slot up, and `RewindWrite`, `FlushBuffer` and `ParseFrom` may
give it back.

**Theorem (`offset_table_bounds`).** The table is never overrun, in whatever program of calls and at
whatever depth of nesting, if and only if no write of a remote object that records its offset finds
the table filled by its own `Marshalling`. Whether that is so is told from the table before the write
and from the offsets that the calls of the `Marshalling` record (`Step.Spares`): the sizes of the
table are 3, 7, 13, 22, ..., and it is filled when the number of offsets comes to one of them.
`offset_table_overrun` is a program in which it does.

The calls are followed by what they ask of the table (`UserCode.asks`), and the tables of
`Lib.SlotTable` answer the same requests in the same way (`Handles`).
-/

namespace CUtils

open StateRun ByteMemory Parcel SlotTable

/-- The table holds what has been recorded, and every store to it was to one of its slots. -/
structure Table (p : Parcel) : Prop where
  cursor_le : p.objectCursor ≤ p.objectsCapacity
  /-- The size of the table in bytes is a size that could be allocated. -/
  slots_le : p.objectsCapacity * binderSize ≤ ptrdiffMax
  log_ok : ∀ a ∈ p.log, a.kind = .slot → a.pos < a.bound

theorem Table.new (allocator : Nat) (heap : Nat → Option Mem) : Table (Parcel.new allocator heap) :=
  ⟨le_rfl, Nat.zero_le _, by simp [Parcel.new]⟩

/-! ## The table in the abstract -/

def Parcel.slots (p : Parcel) : Slots := ⟨p.objectCursor, p.objectsCapacity⟩

/-- The size that follows the size `c`. -/
def grownSize (c : Nat) : Nat := (c + 2) * 3 / 2

theorem lt_grownSize (c : Nat) : c < grownSize c := by
  unfold grownSize
  omega

instance (s : Slots) (asks : List Ask) : Decidable (s.Fills grownSize asks) :=
  s.decidableFills lt_grownSize asks

/-- From `p` to `p'` the requests `asks` have been made of the table, and none stored outside it. -/
structure Handles (p : Parcel) (asks : List Ask) (p' : Parcel) : Prop where
  table : Table p'
  slots : p'.slots = p.slots.handleAll grownSize asks
  serves : p.slots.ServesAll grownSize asks

theorem Handles.refl {p : Parcel} (ht : Table p) : Handles p [] p := ⟨ht, rfl, trivial⟩

theorem Handles.trans {p p' p'' : Parcel} {asks asks' : List Ask} (h : Handles p asks p')
    (h' : Handles p' asks' p'') : Handles p (asks ++ asks') p'' where
  table := h'.table
  slots := by
    rw [h'.slots, h.slots, Slots.handleAll, Slots.handleAll, Slots.handleAll, List.foldl_append]
  serves := (p.slots.servesAll_append asks asks').2 ⟨h.serves, h.slots ▸ h'.serves⟩

/-- The table is as before, and what has been stored is elsewhere. -/
structure SameTable (p p' : Parcel) : Prop where
  offsets : p'.offsets = p.offsets
  slots : p'.objectsCapacity = p.objectsCapacity
  log : ∃ new, p'.log = new ++ p.log ∧ ∀ a ∈ new, a.kind ≠ .slot

theorem SameTable.of_log {p p' : Parcel} (ho : p'.offsets = p.offsets)
    (hcap : p'.objectsCapacity = p.objectsCapacity) (hlog : p'.log = p.log) : SameTable p p' :=
  ⟨ho, hcap, [], hlog, by simp⟩

instance : IsPreorder Parcel SameTable where
  refl _ := .of_log rfl rfl rfl
  trans p p' p'' h h' := by
    obtain ⟨new, hlog, hnew⟩ := h.log
    obtain ⟨new', hlog', hnew'⟩ := h'.log
    refine ⟨h'.offsets.trans h.offsets, h'.slots.trans h.slots, new' ++ new, ?_, fun a ha => ?_⟩
    · rw [hlog', hlog, List.append_assoc]
    · rcases List.mem_append.1 ha with ha | ha
      · exact hnew' a ha
      · exact hnew a ha

/-- A call that leaves the table alone and logs other accesses only. -/
theorem Table.of_same {p p' : Parcel} (h : Table p) (ho : p'.offsets = p.offsets)
    (hcap : p'.objectsCapacity = p.objectsCapacity)
    (hlog : ∃ new, p'.log = new ++ p.log ∧ ∀ a ∈ new, a.kind ≠ .slot) : Table p' := by
  obtain ⟨new, hlog, hnew⟩ := hlog
  refine ⟨?_, hcap ▸ h.slots_le, fun a ha hk => ?_⟩
  · rw [Parcel.objectCursor, ho, hcap]
    exact h.cursor_le
  · rw [hlog] at ha
    rcases List.mem_append.1 ha with ha | ha
    · exact absurd hk (hnew a ha)
    · exact h.log_ok a ha hk

theorem SameTable.handles {p p' : Parcel} (h : SameTable p p') (ht : Table p) : Handles p [] p' where
  table := ht.of_same h.offsets h.slots h.log
  slots := by
    rw [Parcel.slots, Parcel.objectCursor, h.offsets, h.slots]
    rfl
  serves := trivial

/-! ## One request -/

/-- Growing makes a free slot. The sizes cannot wrap around, because a table whose size had come near
that could not have been allocated. -/
theorem ensureObjectsCapacity_handles {p : Parcel} (ht : Table p) :
    ((ensureObjectsCapacity.run p).1 = true → Handles p [.reserve] (ensureObjectsCapacity.run p).2) ∧
      ((ensureObjectsCapacity.run p).1 = false → SameTable p (ensureObjectsCapacity.run p).2) := by
  have hle := ht.cursor_le
  have hslots := ht.slots_le
  have hserves : p.slots.ServesAll grownSize [.reserve] := ⟨fun h => absurd h (by simp), trivial⟩
  rw [run_ensureObjectsCapacity, szSub_of_le hle]
  by_cases h : p.objectsCapacity - p.objectCursor ≥ 1
  · rw [if_pos h]
    have hroom : p.objectCursor < p.objectsCapacity := by omega
    refine ⟨fun _ => ⟨ht, ?_, hserves⟩, fun hno => absurd hno (by simp)⟩
    exact (if_pos hroom).symm
  · rw [if_neg h]
    have hfull : ¬ p.objectCursor < p.objectsCapacity := by omega
    by_cases ha : p.allocator.isNone = true
    · rw [if_pos ha]
      exact ⟨fun hno => absurd hno (by simp), fun _ => .of_log rfl rfl rfl⟩
    · rw [if_neg ha]
      have hgrown : p.grownSlots = grownSize p.objectsCapacity := by
        rw [Parcel.grownSlots, grownSize, szAdd_of_lt, szMul_of_lt] <;>
          simp only [binderSize, ptrdiffMax, sizeLimit] at * <;> omega
      have hsmall : grownSize p.objectsCapacity * binderSize < sizeLimit := by
        simp only [grownSize, binderSize, ptrdiffMax, sizeLimit] at *
        omega
      cases hg : p.grant (szMul p.grownSlots binderSize) with
      | none => exact ⟨fun hno => absurd hno (by simp), fun _ => .of_log rfl rfl rfl⟩
      | some m =>
          have hsize := grant_le hg
          rw [hgrown, szMul_of_lt hsmall] at hsize
          have hcur : p.objectCursor < p.grownSlots :=
            hgrown ▸ hle.trans_lt (lt_grownSize p.objectsCapacity)
          refine ⟨fun _ => ⟨⟨hcur.le, hgrown ▸ hsize, ht.log_ok⟩, ?_, hserves⟩,
            fun hno => absurd hno (by simp)⟩
          have hhandle : p.slots.handleAll grownSize [.reserve] =
              ⟨p.objectCursor, grownSize p.objectsCapacity⟩ := if_neg hfull
          rw [hhandle, ← hgrown]
          rfl

/-- The offset is recorded: it lies in the data and is not in the table. -/
def Parcel.Records (p : Parcel) (offset : Nat) : Prop := offset ≤ p.dataSize ∧ offset ∉ p.offsets

instance (p : Parcel) (offset : Nat) : Decidable (p.Records offset) :=
  inferInstanceAs (Decidable (_ ∧ _))

def recordAsks (offset : Nat) (p : Parcel) : List Ask := if p.Records offset then [.record] else []

theorem run_writeObjectOffset_records (p : Parcel) (offset : Nat) :
    (writeObjectOffset offset).run p =
      if p.Records offset then
        (true,
          { p with
            objectOffsets := some (p.offsets ++ [offset])
            log := ⟨.slot, p.objectCursor, 1, p.objectsCapacity⟩ :: p.log })
      else (false, p) := by
  have hiff : p.Records offset ↔ ¬ (offset > p.dataSize ∨ offset ∈ p.offsets) := by
    rw [Parcel.Records, not_or, Nat.not_lt]
  rw [run_writeObjectOffset]
  by_cases h : offset > p.dataSize ∨ offset ∈ p.offsets
  · rw [if_pos h, if_neg (fun hr => hiff.1 hr h)]
  · rw [if_neg h, if_pos (hiff.2 h)]

/-- Recording an offset respects the table if it finds a slot or needs none. -/
theorem writeObjectOffset_handles {p : Parcel} (ht : Table p) {offset : Nat}
    (hroom : p.Records offset → p.objectCursor < p.objectsCapacity) :
    Handles p (recordAsks offset p) ((writeObjectOffset offset).run p).2 := by
  rw [run_writeObjectOffset_records, recordAsks]
  by_cases h : p.Records offset
  · rw [if_pos h, if_pos h]
    have hfree := hroom h
    have hlen : (p.offsets ++ [offset]).length = p.objectCursor + 1 := by
      rw [List.length_append]
      rfl
    refine ⟨⟨?_, ht.slots_le, fun a ha hk => ?_⟩, ?_, ⟨fun _ => hfree, trivial⟩⟩
    · show (p.offsets ++ [offset]).length ≤ p.objectsCapacity
      omega
    · rcases List.mem_cons.1 ha with rfl | ha
      · exact hfree
      · exact ht.log_ok a ha hk
    · show (⟨(p.offsets ++ [offset]).length, p.objectsCapacity⟩ : Slots) = _
      rw [hlen]
      rfl
  · rw [if_neg h, if_neg h]
    exact Handles.refl ht

theorem cleared_handles {p : Parcel} (ht : Table p) : Handles p [.cut 0] p.cleared :=
  ⟨⟨le_rfl, Nat.zero_le _, ht.log_ok⟩, rfl, ⟨fun h => absurd h (by simp), trivial⟩⟩

/-! ## One call -/

/-- What one round of the loop of `InjectOffsets` asks of the table. -/
def injectAsk (offset : Nat) (p : Parcel) : List Ask :=
  let ensured := ensureObjectsCapacity.run p
  if ensured.1 = true then .reserve :: recordAsks offset ensured.2 else []

def injectAsks : List Nat → Parcel → List Ask
  | [], _ => []
  | o :: os, p => injectAsk o p ++ injectAsks os ((injectOffset o).run p).2

theorem Handles.room {p p' : Parcel} (ht : Table p) (h : Handles p [.reserve] p') :
    p'.objectCursor < p'.objectsCapacity := by
  have hlt := p.slots.reserve_lt lt_grownSize ht.cursor_le
  have hslots : p'.slots = p.slots.handle grownSize .reserve := h.slots
  rw [← hslots] at hlt
  exact hlt

theorem injectOffset_handles {p : Parcel} (ht : Table p) (offset : Nat) :
    Handles p (injectAsk offset p) ((injectOffset offset).run p).2 := by
  obtain ⟨hgranted, hrefused⟩ := ensureObjectsCapacity_handles ht
  rw [injectAsk, injectOffset, run_bind]
  cases hok : (ensureObjectsCapacity.run p).1 with
  | false => exact (hrefused hok).handles ht
  | true =>
      have hens := hgranted hok
      exact hens.trans (writeObjectOffset_handles hens.table fun _ => hens.room ht)

theorem injectOffset_table {p : Parcel} (ht : Table p) (offset : Nat) :
    Table ((injectOffset offset).run p).2 :=
  (injectOffset_handles ht offset).table

theorem injectOffsets_handles {p : Parcel} (ht : Table p) (os : List Nat) :
    Handles p (injectAsks os p) ((os.forM injectOffset).run p).2 := by
  induction os generalizing p with
  | nil => exact Handles.refl ht
  | cons o os ih =>
      have ho := injectOffset_handles ht o
      exact ho.trans (ih ho.table)

variable [Target]

/-- How many offsets `RewindWrite` cuts the table down to, if it does. -/
def Parcel.rewindAsks (p : Parcel) (n : Nat) : List Ask :=
  if n > p.dataSize then []
  else if Target.objectCheck = false ∨ p.offsets = [] ∨
      szAdd (p.offsets.getD (p.objectCursor - 1) 0) flatSize ≤ n then []
  else
    let k := keptObjects p.offsets n p.objectCursor
    if k = 0 then [.cut 0]
    else if (p.grant (szMul k binderSize)).isSome = true then [.cut k] else []

theorem rewindWrite_handles {p : Parcel} (ht : Table p) (n : Nat) :
    Handles p (p.rewindAsks n) ((rewindWrite n).run p).2 := by
  have hrewound : SameTable p (p.rewound n) := .of_log rfl rfl rfl
  have hallocated : SameTable p (p.rewound n).allocated := .of_log rfl rfl rfl
  have hrew := hrewound.handles ht
  rw [Parcel.rewindAsks, run_rewindWrite]
  by_cases hbehind : n > p.dataSize
  · rw [if_pos hbehind, if_pos hbehind]
    exact Handles.refl ht
  · rw [if_neg hbehind, if_neg hbehind]
    by_cases hkeep : Target.objectCheck = false ∨ p.offsets = [] ∨
        szAdd (p.offsets.getD (p.objectCursor - 1) 0) flatSize ≤ n
    · rw [if_pos hkeep, if_pos hkeep]
      exact hrew
    · rw [if_neg hkeep, if_neg hkeep]
      dsimp only
      by_cases hk : keptObjects p.offsets n p.objectCursor = 0
      · rw [if_pos hk, if_pos hk]
        exact hrew.trans (cleared_handles hrew.table)
      · rw [if_neg hk, if_neg hk]
        have hkept := keptObjects_le p.offsets n p.objectCursor
        have hle := ht.cursor_le
        have hslots := ht.slots_le
        cases p.grant (szMul (keptObjects p.offsets n p.objectCursor) binderSize) with
        | none => exact hallocated.handles ht
        | some m =>
            have hlen : (p.offsets.take (keptObjects p.offsets n p.objectCursor)).length =
                keptObjects p.offsets n p.objectCursor := List.length_take_of_le hkept
            refine ⟨⟨hlen.le, ?_, ht.log_ok⟩, ?_, ⟨fun h => absurd h (by simp), trivial⟩⟩
            · show keptObjects p.offsets n p.objectCursor * binderSize ≤ ptrdiffMax
              simp only [binderSize] at *
              omega
            · show (⟨(p.offsets.take _).length, keptObjects p.offsets n p.objectCursor⟩ : Slots) = _
              rw [hlen]
              rfl

omit [Target] in
theorem flushBuffer_handles {p : Parcel} (ht : Table p) :
    Handles p (if p.allocator.isNone = true ∨ p.objectOffsets.isSome = false then [] else [.cut 0])
      (flushBuffer.run p).2 := by
  have hflushed : Table p.flushed := ht.of_same rfl rfl ⟨[], rfl, by simp⟩
  have hsame : SameTable p p.flushed := .of_log rfl rfl rfl
  rw [run_flushBuffer]
  cases p.allocator.isNone with
  | true => exact Handles.refl ht
  | false =>
      cases p.objectOffsets.isSome with
      | true =>
          cases p.data.isSome with
          | true => exact (hsame.handles ht).trans (cleared_handles hflushed)
          | false => exact cleared_handles ht
      | false =>
          cases p.data.isSome with
          | true => exact hsame.handles ht
          | false => exact Handles.refl ht

theorem parseFrom_handles {p : Parcel} (ht : Table p) (data : Option Mem) (size : Nat) :
    Handles p
      (if p.data.isSome = true then []
        else if Target.objectCheck = true ∧ p.objectOffsets.isSome = true then [.cut 0] else [])
      ((parseFrom data size).run p).2 := by
  have hparsed : Table (p.parsed data size) := ht.of_same rfl rfl ⟨[], rfl, by simp⟩
  have hsame : SameTable p (p.parsed data size) := .of_log rfl rfl rfl
  rw [run_parseFrom]
  by_cases hd : p.data.isSome = true
  · rw [if_pos hd, if_pos hd]
    exact Handles.refl ht
  · rw [if_neg hd, if_neg hd]
    by_cases hclear : Target.objectCheck = true ∧ p.objectOffsets.isSome = true
    · rw [if_pos hclear, if_pos hclear]
      exact (hsame.handles ht).trans (cleared_handles hparsed)
    · rw [if_neg hclear, if_neg hclear]
      exact hsame.handles ht

omit [Target] in
theorem Storage.sameTable {p p' : Parcel} (h : Storage p p') : SameTable p p' := by
  have ho : p'.objectOffsets = p.objectOffsets := by rw [h]
  exact .of_log (by rw [Parcel.offsets, ho, Parcel.offsets]) (by rw [h]) (by rw [h])

/-- Writers and readers have nothing to do with the table. -/
theorem sameTable_respects : RespectsData SameTable where
  ensure n p := (ensureWritableCapacity_storage p n).sameTable
  store pos n src p := ⟨rfl, rfl, [⟨.store, pos, n, p.blockSize⟩], rfl, by simp⟩
  advance _ _ := .of_log rfl rfl rfl
  check u p := by
    simp only [validateReadData, run_bind, run_get, run_ite]
    split
    · exact .of_log rfl rfl rfl
    · split
      · exact .of_log rfl rfl rfl
      · split
        · exact .of_log rfl rfl rfl
        · exact .of_log rfl rfl rfl
  load pos n p := ⟨rfl, rfl, [⟨.load, pos, n, p.loadBound⟩], rfl, by simp⟩
  seek _ _ := .of_log rfl rfl rfl

/-- What a call asks of the table. -/
def MemberCall.asks {α : Type} (p : Parcel) : MemberCall α → List Ask
  | injectOffsets offsets => injectAsks (offsets.getD []) p
  | rewindWrite n => p.rewindAsks n
  | flushBuffer => if p.allocator.isNone = true ∨ p.objectOffsets.isSome = false then [] else [.cut 0]
  | parseFrom .. =>
      if p.data.isSome = true then []
      else if Target.objectCheck = true ∧ p.objectOffsets.isSome = true then [.cut 0] else []
  | _ => []

theorem MemberCall.handles {p : Parcel} (ht : Table p) {α : Type} (c : MemberCall α) :
    Handles p (c.asks p) (c.exec.run p).2 := by
  cases c with
  | write w => exact (w.tracks sameTable_respects p).handles ht
  | read m hm => exact (hm.tracks sameTable_respects p).handles ht
  | tell f => exact Handles.refl ht
  | writeNull how =>
      have hflag : SameTable p ((writeInt32 0).run p).2 :=
        write_tracks sameTable_respects (0 : BitVec 32) p
      cases how with
      | remoteObject => exact Handles.refl ht
      | parcelable => exact hflag.handles ht
      | strongParcelable => exact hflag.handles ht
  | injectOffsets offsets => exact injectOffsets_handles ht (offsets.getD [])
  | setMaxCapacity n => exact (setMaxCapacity_storage p n.toNat).sameTable.handles ht
  | setDataCapacity n => exact (setDataCapacity_storage p n).sameTable.handles ht
  | setDataSize n =>
      have hset : SameTable p ((CUtils.setDataSize n).run p).2 := by
        rw [run_setDataSize]
        split <;> exact .of_log rfl rfl rfl
      exact hset.handles ht
  | setAllocator a => exact (setAllocator_storage p a).sameTable.handles ht
  | skipBytes n => exact (skipBytes_tracks sameTable_respects n p).handles ht
  | rewindRead n =>
      have hrewind : SameTable p ((CUtils.rewindRead n).run p).2 := by
        simp only [CUtils.rewindRead, run_bind, run_get]
        split <;> exact .of_log rfl rfl rfl
      exact hrewind.handles ht
  | rewindWrite n => exact rewindWrite_handles ht n
  | flushBuffer => exact flushBuffer_handles ht
  | parseFrom data size hsize hnull => exact parseFrom_handles ht data size

/-! ## Programs -/

/-- What the write of an object asks of the table when its `Marshalling` has asked for `asks` and has
ended in `r`; `placeholder` is where it began. -/
def objectAsks (asRemote : Bool) (placeholder : Nat) (asks : List Ask) (r : Bool × Parcel) :
    List Ask :=
  if asRemote = true then
    .reserve :: (asks ++ if r.1 = true then recordAsks placeholder r.2 else [])
  else asks

/-- What the program asks of the table, those of the `Marshalling`s it runs included. -/
def UserCode.asks : UserCode → Parcel → List Ask
  | ret _, _ => []
  | call c next, p => c.asks p ++ (next (c.exec.run p).1).asks (c.exec.run p).2
  | write how o marshalling next, p =>
      let r := (how.exec (some (o.parcelable marshalling.exec))).run p
      (how.entry o.asRemote p).elim []
        (fun q => objectAsks o.asRemote q.writeCursor (marshalling.asks q) (marshalling.exec.run q)) ++
        (next r.1).asks r.2

/-- If the write of a remote object records the offset of the object, then the requests made while its
`Marshalling` ran have not filled the table that was there when the write began. -/
def UserCode.Step.Spares : UserCode.Step → Prop
  | .call .. => True
  | .write p how o marshalling =>
      o.asRemote = true → ∀ q ∈ how.entry o.asRemote p, (marshalling.exec.run q).1 = true →
        (marshalling.exec.run q).2.Records q.writeCursor →
          ¬ (p.slots.handle grownSize .reserve).Fills grownSize (marshalling.asks q)

instance : DecidablePred UserCode.Step.Spares
  | .call .. => inferInstanceAs (Decidable True)
  | .write p how o marshalling => inferInstanceAs
      (Decidable (o.asRemote = true → ∀ q ∈ how.entry o.asRemote p,
        (marshalling.exec.run q).1 = true → (marshalling.exec.run q).2.Records q.writeCursor →
          ¬ (p.slots.handle grownSize .reserve).Fills grownSize (marshalling.asks q)))

theorem writeInt32_sameTable (p : Parcel) (v : BitVec 32) : SameTable p ((writeInt32 v).run p).2 :=
  write_tracks sameTable_respects v p

/-- A remote object starts with a slot reserved, any other with the table as it is. -/
theorem entry_handles {how : ObjectWriter} {asRemote : Bool} {p q : Parcel} (ht : Table p)
    (hentry : how.entry asRemote p = some q) :
    Handles p (if asRemote = true then [.reserve] else []) q := by
  have hreserved : ∀ {r : Parcel}, SameTable p r → r.reserved = some q → Handles p [.reserve] q := by
    intro r hr hq
    obtain ⟨hok, rfl, -⟩ := entry_reserved hq
    have hsame := hr.handles ht
    exact hsame.trans ((ensureObjectsCapacity_handles hsame.table).1 hok)
  have hflagged : ObjectWriter.entry .parcelable asRemote p = some q →
      Handles p (if asRemote = true then [.reserve] else []) q := by
    intro hentry
    rw [ObjectWriter.entry] at hentry
    by_cases hok : ((writeInt32 1).run p).1 = true
    · rw [if_pos hok] at hentry
      by_cases hr : asRemote = true
      · rw [if_pos hr] at hentry ⊢
        exact hreserved (writeInt32_sameTable p 1) hentry
      · rw [if_neg hr] at hentry ⊢
        exact Option.some.inj hentry ▸ (writeInt32_sameTable p 1).handles ht
    · rw [if_neg hok] at hentry
      cases hentry
  cases how with
  | remoteObject =>
      rw [ObjectWriter.entry] at hentry
      by_cases hr : asRemote = true
      · rw [if_pos hr] at hentry ⊢
        exact hreserved (refl_of SameTable p) hentry
      · rw [if_neg hr] at hentry
        cases hentry
  | parcelable => exact hflagged hentry
  | strongParcelable => exact hflagged hentry

omit [Target] in
theorem rolledBack_sameTable (p q : Parcel) : SameTable q (p.rolledBack q) := .of_log rfl rfl rfl

omit [Target] in
theorem failed_sameTable (how : ObjectWriter) (p q : Parcel) : SameTable q (how.failed p q) := by
  cases how with
  | remoteObject => exact refl_of SameTable q
  | parcelable => exact rolledBack_sameTable p q
  | strongParcelable => exact rolledBack_sameTable p q

/-- A write that does not get to the `Marshalling` leaves the table alone. -/
theorem stopped_sameTable {how : ObjectWriter} {asRemote : Bool} {p : Parcel} (ht : Table p)
    (hentry : how.entry asRemote p = none) : SameTable p (how.stopped asRemote p) := by
  have hrefused : ∀ {r : Parcel}, SameTable p r → r.reserved = none →
      SameTable p (ensureObjectsCapacity.run r).2 := by
    intro r hr hnone
    have hno := Bool.eq_false_iff.2 (reserved_none hnone)
    exact trans_of SameTable hr ((ensureObjectsCapacity_handles (hr.handles ht).table).2 hno)
  have hflagged : ObjectWriter.entry .parcelable asRemote p = none →
      SameTable p (ObjectWriter.stopped .parcelable asRemote p) := by
    intro hentry
    have hflag := writeInt32_sameTable p 1
    rw [ObjectWriter.entry] at hentry
    rw [ObjectWriter.stopped]
    by_cases hok : ((writeInt32 1).run p).1 = true
    · rw [if_pos hok] at hentry ⊢
      by_cases hr : asRemote = true
      · rw [if_pos hr] at hentry
        exact trans_of SameTable (hrefused hflag hentry) (rolledBack_sameTable p _)
      · rw [if_neg hr] at hentry
        cases hentry
    · rw [if_neg hok]
      exact hflag
  cases how with
  | remoteObject =>
      rw [ObjectWriter.entry] at hentry
      rw [ObjectWriter.stopped]
      by_cases hr : asRemote = true
      · rw [if_pos hr] at hentry ⊢
        exact hrefused (refl_of SameTable p) hentry
      · rw [if_neg hr]
        exact refl_of SameTable p
  | parcelable => exact hflagged hentry
  | strongParcelable => exact hflagged hentry

omit [Target] in
/-- Keeping the object alive has nothing to do with the table. -/
theorem recordObject_sameTable (x : Parcelable) (n : Nat) (p : Parcel) :
    SameTable ((writeObjectOffset n).run p).2 ((recordObject x n).run p).2 := by
  simp only [recordObject, run_bind, run_ite, run_pure]
  split
  · exact .of_log rfl rfl rfl
  · exact refl_of SameTable _

omit [Target] in
theorem Handles.same {p p' p'' : Parcel} {asks : List Ask} (h : Handles p asks p')
    (hsame : SameTable p' p'') : Handles p asks p'' :=
  List.append_nil asks ▸ h.trans (hsame.handles h.table)

/-- **The write of an object**, when its `Marshalling` respects the table. -/
theorem write_handles {p : Parcel} (ht : Table p) {how : ObjectWriter} {o : ObjectHead} {m : UserCode}
    (hspares : (UserCode.Step.write p how o m).Spares)
    (hbody : ∀ q, how.entry o.asRemote p = some q → Handles q (m.asks q) (m.exec.run q).2) :
    Handles p
      ((how.entry o.asRemote p).elim []
        fun q => objectAsks o.asRemote q.writeCursor (m.asks q) (m.exec.run q))
      ((how.exec (some (o.parcelable m.exec))).run p).2 := by
  cases hentry : how.entry o.asRemote p with
  | none =>
      rw [ObjectWriter.run_stopped hentry]
      exact (stopped_sameTable ht hentry).handles ht
  | some q =>
      have hstart := entry_handles ht hentry
      have hran := hbody q hentry
      rw [ObjectWriter.run_entered hentry]
      dsimp only [Option.elim_some]
      rw [objectAsks]
      by_cases hr : o.asRemote = true
      · rw [if_pos hr] at hstart ⊢
        rw [if_pos hr]
        have hboth := hstart.trans hran
        cases hok : (m.exec.run q).1 with
        | false =>
            rw [if_neg Bool.false_ne_true, if_neg Bool.false_ne_true, List.append_nil]
            exact hboth.same (failed_sameTable how p _)
        | true =>
            rw [if_pos rfl, if_pos rfl]
            have hroom : (m.exec.run q).2.Records q.writeCursor →
                (m.exec.run q).2.objectCursor < (m.exec.run q).2.objectsCapacity := by
              intro hrecords
              have hfills := hspares hr q hentry hok hrecords
              have hq : q.slots = p.slots.handle grownSize .reserve := hstart.slots
              rw [← hq, ← Slots.full_iff lt_grownSize hstart.table.cursor_le hran.serves,
                ← hran.slots] at hfills
              exact lt_of_le_of_ne hran.table.cursor_le hfills
            have hrecord := writeObjectOffset_handles hran.table hroom
            exact (hboth.trans hrecord).same (recordObject_sameTable _ _ _)
      · rw [if_neg hr] at hstart ⊢
        rw [if_neg hr]
        exact hstart.trans hran

/-- **The run lemma**: where every write of an object meets the condition, the table is respected in
every state, and what has become of it is what becomes of it in the abstract. -/
theorem UserCode.handles {c : UserCode} {p : Parcel} (ht : Table p) (h : ∀ s ∈ c.steps p, s.Spares) :
    Handles p (c.asks p) (c.exec.run p).2 ∧ ∀ q ∈ c.reached p, Table q := by
  induction c generalizing p with
  | ret b =>
      refine ⟨Handles.refl ht, fun q hq => ?_⟩
      rw [List.mem_singleton.1 hq]
      exact ht
  | call c next ih =>
      have hcall := c.handles ht
      have hrest : ∀ s ∈ (next (c.exec.run p).1).steps (c.exec.run p).2, s.Spares :=
        fun s hs => h s (by simp [steps, hs])
      obtain ⟨hnext, hreached⟩ := ih _ hcall.table hrest
      refine ⟨hcall.trans hnext, fun q hq => ?_⟩
      rcases List.mem_cons.1 hq with rfl | hq
      · exact ht
      · exact hreached q hq
  | write how o m next ihbody ih =>
      have hbody : ∀ q, how.entry o.asRemote p = some q →
          Handles q (m.asks q) (m.exec.run q).2 ∧ ∀ r ∈ m.reached q, Table r := by
        intro q hentry
        exact ihbody (entry_handles ht hentry).table fun s hs => h s (by simp [steps, hentry, hs])
      have hwrite := write_handles ht (h _ (by simp [steps])) fun q hentry => (hbody q hentry).1
      obtain ⟨hnext, hreached⟩ := ih ((how.exec (some (o.parcelable m.exec))).run p).1 hwrite.table
        fun s hs => h s (by simp [steps, hs])
      refine ⟨hwrite.trans hnext, fun q hq => ?_⟩
      rcases List.mem_cons.1 hq with rfl | hq
      · exact ht
      · rcases List.mem_append.1 hq with hq | hq
        · cases hentry : how.entry o.asRemote p with
          | none => simp [hentry] at hq
          | some r =>
              rw [hentry] at hq
              exact (hbody r hentry).2 q hq
        · exact hreached q hq

/-! ### The other way round -/

/-- What a program has stored is never forgotten. -/
theorem logged_rule (p : Parcel) : UserCode.Rule (Logged p) fun _ => True :=
  UserCode.Rule.of_respects (logged_respects.kept p) fun hblock _ hp =>
    trans_of Logged hp (.of_same (MemberCall.onBlock_frame hblock _).1)

theorem UserCode.logged (c : UserCode) (p : Parcel) : Logged p (c.exec.run p).2 :=
  (logged_rule p).reached (refl_of Logged p) (fun _ _ => trivial) _ (c.final_mem_reached p)

/-- What a `Marshalling` has stored is in the log after the write. -/
theorem logged_write {p q : Parcel} {how : ObjectWriter} {o : ObjectHead} {m : UserCode}
    (hentry : how.entry o.asRemote p = some q) :
    Logged (m.exec.run q).2 ((how.exec (some (o.parcelable m.exec))).run p).2 := by
  rw [ObjectWriter.run_entered hentry]
  dsimp only
  by_cases hr : o.asRemote = true
  · rw [if_pos hr]
    cases hok : (m.exec.run q).1 with
    | true => exact (logged_rule _).record _ _ (refl_of Logged _)
    | false =>
        obtain ⟨-, -, new, hlog, -⟩ := failed_sameTable how p (m.exec.run q).2
        exact ⟨new, hlog.symm⟩
  · rw [if_neg hr]
    exact refl_of Logged _

/-- Every slot stored to so far was a slot of the table of that moment. -/
def Parcel.InTable (p : Parcel) : Prop := ∀ a ∈ p.log, a.kind = .slot → a.pos < a.bound

omit [Target] in
theorem Logged.inTable {p p' : Parcel} (h : Logged p p') (hp : p'.InTable) : p.InTable :=
  fun a ha => hp a (h.subset ha)

/-- A write of a remote object that has stored its offset in the table has met the condition. -/
theorem write_spares {p : Parcel} (ht : Table p) {how : ObjectWriter} {o : ObjectHead}
    {m : UserCode} (hbody : ∀ q, how.entry o.asRemote p = some q →
      Handles q (m.asks q) (m.exec.run q).2)
    (hlog : ((how.exec (some (o.parcelable m.exec))).run p).2.InTable) :
    (UserCode.Step.write p how o m).Spares := by
  intro hr q hentry hok hrecords
  have hstart := entry_handles ht hentry
  rw [if_pos hr] at hstart
  have hran := hbody q hentry
  have hq : q.slots = p.slots.handle grownSize .reserve := hstart.slots
  rw [ObjectWriter.run_entered hentry] at hlog
  dsimp only at hlog
  rw [if_pos hr, if_pos hok] at hlog
  obtain ⟨-, -, new, hnew, -⟩ := recordObject_sameTable (how.passes (o.parcelable m.exec))
    q.writeCursor (m.exec.run q).2
  rw [run_writeObjectOffset_records, if_pos hrecords] at hnew
  have hstored : (m.exec.run q).2.objectCursor < (m.exec.run q).2.objectsCapacity := by
    refine hlog ⟨.slot, _, 1, _⟩ ?_ rfl
    rw [hnew]
    exact List.mem_append_right _ (List.mem_cons_self ..)
  rw [← hq, ← Slots.full_iff lt_grownSize hstart.table.cursor_le hran.serves, ← hran.slots]
  exact hstored.ne

theorem UserCode.spares_of_inTable {c : UserCode} {p : Parcel} (ht : Table p)
    (hlog : (c.exec.run p).2.InTable) : ∀ s ∈ c.steps p, s.Spares := by
  induction c generalizing p with
  | ret b => simp [steps]
  | call c next ih =>
      intro s hs
      rcases List.mem_cons.1 hs with rfl | hs
      · trivial
      · exact ih _ (c.handles ht).table hlog s hs
  | write how o m next ihbody ih =>
      have hwritten := ((next _).logged _).inTable hlog
      have hspares : ∀ q, how.entry o.asRemote p = some q → ∀ s ∈ m.steps q, s.Spares := by
        intro q hentry
        exact ihbody (entry_handles ht hentry).table ((logged_write hentry).inTable hwritten)
      have hbody : ∀ q, how.entry o.asRemote p = some q → Handles q (m.asks q) (m.exec.run q).2 :=
        fun q hentry => (handles (entry_handles ht hentry).table (hspares q hentry)).1
      have hown := write_spares ht hbody hwritten
      intro s hs
      rcases List.mem_cons.1 hs with rfl | hs
      · exact hown
      · rcases List.mem_append.1 hs with hs | hs
        · cases hentry : how.entry o.asRemote p with
          | none => simp [hentry] at hs
          | some q =>
              rw [hentry] at hs
              exact hspares q hentry s hs
        · exact ih _ (write_handles ht hown hbody).table hlog s hs

/-- **When the offset table is not overrun**: exactly if no write of a remote object that records its
offset has the table filled by its own `Marshalling`. -/
theorem offset_table_bounds (allocator : Nat) (heap : Nat → Option Mem) (c : UserCode) :
    (∀ q ∈ c.reached (Parcel.new allocator heap),
      q.objectCursor ≤ q.objectsCapacity ∧ ∀ a ∈ q.log, a.kind = .slot → a.pos < a.bound) ↔
      ∀ s ∈ c.steps (Parcel.new allocator heap), s.Spares := by
  have hnew := Table.new allocator heap
  constructor
  · intro hall
    exact UserCode.spares_of_inTable hnew (hall _ (c.final_mem_reached _)).2
  · intro hspares q hq
    have htable := (UserCode.handles hnew hspares).2 q hq
    exact ⟨htable.cursor_le, htable.log_ok⟩

/-- A `Marshalling` that writes one zeroed flat object. -/
def flatCode : UserCode := .call (.write (.buffer (some fun _ => 0) flatSize)) .ret

/-- A remote object that writes a word and two objects, one of them with an object of its own. The
three offsets recorded inside it come to the size of the first table, but the object it writes last
has asked for a slot before it failed, so the table has grown. -/
def nestingClient : UserCode :=
  .write .remoteObject ⟨1, true, 0⟩
    (.call (.write (.scalar .int32 0)) fun _ =>
      .write .remoteObject ⟨2, true, 0⟩ flatCode fun _ =>
        .write .parcelable ⟨3, true, 0⟩
          (.write .strongParcelable ⟨4, true, 0⟩ flatCode fun _ => flatCode) fun _ =>
            .write .remoteObject ⟨5, true, 0⟩ (.ret false) fun _ => flatCode) .ret

omit [Target] in
theorem offset_table_bounds_nesting :
    letI := Target.checked
    (∀ s ∈ nestingClient.steps (Parcel.new 0 ampleHeap), s.Spares) ∧
      ∀ q ∈ nestingClient.reached (Parcel.new 0 ampleHeap),
        q.objectCursor ≤ q.objectsCapacity ∧ ∀ a ∈ q.log, a.kind = .slot → a.pos < a.bound := by
  have h : letI := Target.checked
      ∀ s ∈ nestingClient.steps (Parcel.new 0 ampleHeap), s.Spares := by
    decide +kernel
  let _ := Target.checked
  exact ⟨h, (offset_table_bounds 0 ampleHeap nestingClient).2 h⟩

/-- A remote object that writes a word and three flat objects. -/
def overrunningClient : UserCode :=
  .write .remoteObject ⟨4, true, 0⟩
    (.call (.write (.scalar .int32 0)) fun _ =>
      .write .remoteObject ⟨1, true, 0⟩ flatCode fun _ =>
        .write .remoteObject ⟨2, true, 0⟩ flatCode fun _ =>
          .write .remoteObject ⟨3, true, 0⟩ flatCode .ret) .ret

omit [Target] in
/-- The three inner objects fill the three slots of the first table; the outer one is stored
behind it. -/
theorem offset_table_overrun :
    letI := Target.checked
    ∃ q ∈ overrunningClient.reached (Parcel.new 0 ampleHeap),
      q.objectsCapacity < q.objectCursor ∧ ∃ a ∈ q.log, a.kind = .slot ∧ a.bound ≤ a.pos := by
  have hend : letI := Target.checked
      (overrunningClient.exec.run (Parcel.new 0 ampleHeap)).2.objectsCapacity <
          (overrunningClient.exec.run (Parcel.new 0 ampleHeap)).2.objectCursor ∧
        ∃ a ∈ (overrunningClient.exec.run (Parcel.new 0 ampleHeap)).2.log,
          a.kind = .slot ∧ a.bound ≤ a.pos := by
    decide +kernel
  exact ⟨_, @UserCode.final_mem_reached Target.checked _ _, hend⟩

end CUtils
