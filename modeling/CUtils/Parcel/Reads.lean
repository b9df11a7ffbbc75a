import CUtils.Parcel.Effects

/-!
# What a reader does

A reader moves the read cursor, advances the cached index of `ValidateReadData` and hands out
bytes; it changes nothing else (`Looked`). What it hands out are bytes of the data, and for the
readers that check, when the recorded offsets ascend, bytes outside every recorded object.

The second part rests on the invariant `Cached`: the objects below the cached index end at or
before the read cursor. Moving the cursor forward keeps it. The string readers put the cursor
back to where the length was read; they keep it because the check of the length has already
passed every object that starts before the characters (`Scanned.ahead`), so the check of the
characters does not advance the index (`Parcel.scan_ahead`).
-/

namespace CUtils

open StateRun ByteMemory Parcel

/-! ## The object check -/

theorem szAdd_flatSize {o : Nat} (h : o ≤ ptrdiffMax) : szAdd o flatSize = o + flatSize := by
  refine szAdd_of_lt ?_
  simp only [ptrdiffMax, flatSize, sizeLimit] at *
  omega

theorem scanObjects_none {r u : Nat} {os : List Nat} (hos : ∀ o ∈ os, o ≤ ptrdiffMax) {i : Nat}
    (h : scanObjects r u os i = none) : ∃ o ∈ os, o < u ∧ r < o + flatSize := by
  induction os generalizing i with
  | nil => simp [scanObjects] at h
  | cons o os ih =>
      rw [scanObjects, szAdd_flatSize (hos o (by simp))] at h
      by_cases hu : u > o
      · rw [if_pos hu] at h
        by_cases hr : r < o + flatSize
        · exact ⟨o, by simp, hu, hr⟩
        · rw [if_neg hr] at h
          obtain ⟨o', hmem, ho'⟩ := ih (fun x hx => hos x (by simp [hx])) h
          exact ⟨o', by simp [hmem], ho'⟩
      · rw [if_neg hu] at h
        simp at h

/-- The scan passes the objects that start below `u`, all of which have ended at `r`. -/
theorem scanObjects_some {r u : Nat} {os : List Nat} (hos : ∀ o ∈ os, o ≤ ptrdiffMax) {i j : Nat}
    (h : scanObjects r u os i = some j) :
    ∃ k ≤ os.length, j = i + k ∧ (∀ o ∈ os.take k, o < u ∧ o + flatSize ≤ r) ∧
      (∀ o ∈ (os.drop k).head?, u ≤ o) := by
  induction os generalizing i with
  | nil =>
      simp only [scanObjects, Option.some.injEq] at h
      exact ⟨0, le_rfl, h.symm, by simp, by simp⟩
  | cons o os ih =>
      rw [scanObjects, szAdd_flatSize (hos o (by simp))] at h
      by_cases hu : u > o
      · rw [if_pos hu] at h
        by_cases hr : r < o + flatSize
        · rw [if_pos hr] at h
          simp at h
        · rw [if_neg hr] at h
          obtain ⟨k, hk, hj, hpassed, hnext⟩ := ih (fun x hx => hos x (by simp [hx])) h
          refine ⟨k + 1, by simpa using hk, by omega, fun x hx => ?_, by simpa using hnext⟩
          rcases List.mem_cons.1 (by simpa using hx) with rfl | hx
          · exact ⟨hu, Nat.le_of_not_lt hr⟩
          · exact hpassed x hx
      · rw [if_neg hu] at h
        simp only [Option.some.injEq] at h
        exact ⟨0, Nat.zero_le _, h.symm, by simp, fun x hx => by
          simp only [List.drop_zero, List.head?_cons, Option.mem_def, Option.some.injEq] at hx
          omega⟩

variable [Target]

/-- The answer of `ValidateReadData`: the index it leaves, or `none` when it rejects. -/
def Parcel.scan (p : Parcel) (upperBound : Nat) : Option Nat :=
  if Target.objectCheck = true then
    scanObjects p.readCursor upperBound (p.offsets.drop p.nextObjectIdx) p.nextObjectIdx
  else some p.nextObjectIdx

theorem run_validateReadData (p : Parcel) (u : Nat) :
    (validateReadData u).run p =
      (p.scan u).elim (false, p) fun j => (true, { p with nextObjectIdx := j }) := by
  rw [validateReadData, Parcel.scan]
  cases hcheck : Target.objectCheck with
  | false => rfl
  | true =>
      simp only [Bool.not_true, Bool.false_eq_true, if_false, if_true, run_bind, run_get]
      by_cases hempty : p.objectOffsets.isNone = true ∨ p.objectCursor = 0
      · have hnil : p.offsets = [] := by
          rcases hempty with h | h
          · simp [Parcel.offsets, Option.isNone_iff_eq_none.1 h]
          · exact List.eq_nil_of_length_eq_zero h
        rw [if_pos hempty, hnil, List.drop_nil, scanObjects]
        rfl
      · rw [if_neg hempty]
        cases scanObjects p.readCursor u (p.offsets.drop p.nextObjectIdx) p.nextObjectIdx with
        | none => rfl
        | some j => rfl

/-- The check is compiled in and the recorded offsets ascend. -/
structure Ordered (p : Parcel) : Prop where
  check : Target.objectCheck = true
  sorted : p.offsets.Pairwise (· < ·)

omit [Target] in
/-- The objects below the cached index end at or before the read cursor. -/
def Cached (p : Parcel) : Prop := ∀ o ∈ p.offsets.take p.nextObjectIdx, o + flatSize ≤ p.readCursor

omit [Target] in
/-- No byte of the range belongs to a recorded object. -/
def Access.Avoids (a : Access) (offsets : List Nat) : Prop :=
  ∀ o ∈ offsets, a.len = 0 ∨ a.pos + a.len ≤ o ∨ o + flatSize ≤ a.pos

/-- What an accepted check has established. -/
structure Scanned (p : Parcel) (u j : Nat) : Prop where
  next_le : p.nextObjectIdx ≤ j
  le_cursor : j ≤ p.objectCursor
  behind : Cached p → ∀ o ∈ p.offsets.take j, o + flatSize ≤ p.readCursor
  ahead : Ordered p → ∀ o ∈ p.offsets.drop j, u ≤ o

theorem scanned {p : Parcel} (hp : Sound p) {u j : Nat} (h : p.scan u = some j) :
    Scanned p u j := by
  rw [Parcel.scan] at h
  by_cases hcheck : Target.objectCheck = true
  · rw [if_pos hcheck] at h
    obtain ⟨k, hk, rfl, hpassed, hnext⟩ := scanObjects_some
      (fun o ho => hp.offsets_le o (List.mem_of_mem_drop ho)) h
    have hle := hp.next_le
    rw [List.length_drop] at hk
    refine ⟨by omega, ?_, fun hcached o ho => ?_, fun hord o ho => ?_⟩
    · rw [Parcel.objectCursor] at hle ⊢
      omega
    · rw [List.take_add] at ho
      rcases List.mem_append.1 ho with ho | ho
      · exact hcached o ho
      · exact (hpassed o ho).2
    · -- the first offset not passed is at least `u`, and the others are above it
      rw [List.drop_drop] at hnext
      have hsorted := hord.sorted.sublist (List.drop_sublist (p.nextObjectIdx + k) p.offsets)
      cases hdrop : p.offsets.drop (p.nextObjectIdx + k) with
      | nil => simp [hdrop] at ho
      | cons x xs =>
          rw [hdrop] at ho hnext hsorted
          have hx := hnext x rfl
          rcases List.mem_cons.1 ho with rfl | ho
          · exact hx
          · exact hx.trans (List.rel_of_pairwise_cons hsorted ho).le
  · rw [if_neg hcheck, Option.some.injEq] at h
    subst h
    exact ⟨le_rfl, hp.next_le, fun hcached => hcached, fun hord => absurd hord.check hcheck⟩

/-- When the objects not yet passed start at or after the cursor, the index does not move. -/
theorem Parcel.scan_ahead {p : Parcel} (hp : Sound p)
    (hahead : ∀ o ∈ p.offsets.drop p.nextObjectIdx, p.readCursor ≤ o) {u j : Nat}
    (h : p.scan u = some j) : j = p.nextObjectIdx := by
  rw [Parcel.scan] at h
  by_cases hcheck : Target.objectCheck = true
  · rw [if_pos hcheck] at h
    obtain ⟨k, hk, rfl, hpassed, -⟩ := scanObjects_some
      (fun o ho => hp.offsets_le o (List.mem_of_mem_drop ho)) h
    cases k with
    | zero => rfl
    | succ k =>
        cases hdrop : p.offsets.drop p.nextObjectIdx with
        | nil => simp [hdrop] at hk
        | cons x xs =>
            have hx := (hpassed x (by simp [hdrop])).2
            have := hahead x (by simp [hdrop])
            simp only [flatSize] at hx
            omega
  · rw [if_neg hcheck, Option.some.injEq] at h
    exact h.symm

/-! ## The effect of a reader -/

/-- Everything a reader can do; `basic` says that it checks for objects. -/
structure Looked (basic : Bool) (p p' : Parcel) : Prop where
  eq : p' = { p with
    readCursor := p'.readCursor, nextObjectIdx := p'.nextObjectIdx, log := p'.log }
  read_le : p'.readCursor ≤ ptrdiffMax
  next_le : p'.nextObjectIdx ≤ p.objectCursor
  log : ∃ new, p'.log = new ++ p.log ∧ ∀ a ∈ new, a.kind = .load ∧ a.InBounds ∧
    (basic = true → Ordered p → Cached p → a.Avoids p.offsets)
  cached : Ordered p → Cached p → Cached p'

theorem Looked.refl {p : Parcel} (hp : Sound p) (b : Bool) : Looked b p p :=
  ⟨rfl, hp.read_le, hp.next_le, ⟨[], rfl, by simp⟩, fun _ h => h⟩

theorem Looked.objectOffsets {b : Bool} {p p' : Parcel} (h : Looked b p p') :
    p'.objectOffsets = p.objectOffsets := by rw [h.eq]

theorem Looked.offsets {b : Bool} {p p' : Parcel} (h : Looked b p p') :
    p'.offsets = p.offsets := by rw [Parcel.offsets, h.objectOffsets, Parcel.offsets]

theorem Looked.ordered {b : Bool} {p p' : Parcel} (h : Looked b p p') :
    Ordered p' ↔ Ordered p := by
  constructor
  · rintro ⟨hc, hs⟩
    exact ⟨hc, h.offsets ▸ hs⟩
  · rintro ⟨hc, hs⟩
    exact ⟨hc, h.offsets.symm ▸ hs⟩

theorem Sound.looked {b : Bool} {p p' : Parcel} (hp : Sound p) (h : Looked b p p') : Sound p' := by
  have heq := h.eq
  refine
    { size_le := by rw [heq]; exact hp.size_le
      cap_le := by rw [heq]; exact hp.cap_le
      cursor_le := by rw [heq]; exact hp.cursor_le
      read_le := h.read_le
      max_ge := by rw [heq]; exact hp.max_ge
      max_lt := by rw [heq]; exact hp.max_lt
      null := by rw [heq]; exact hp.null
      behind := by rw [heq]; exact hp.behind
      offsets_le := by rw [h.offsets]; exact hp.offsets_le
      next_le := by rw [Parcel.objectCursor, h.offsets]; exact h.next_le
      log_ok := fun a ha hne => ?_ }
  obtain ⟨new, hlog, hnew⟩ := h.log
  rw [hlog] at ha
  rcases List.mem_append.1 ha with ha | ha
  · exact (hnew a ha).2.1
  · exact hp.log_ok a ha hne

theorem Looked.trans {b : Bool} {p p' p'' : Parcel} (h : Looked b p p') (h' : Looked b p' p'') :
    Looked b p p'' := by
  refine ⟨?_, h'.read_le, ?_, ?_, fun ho hc => h'.cached (h.ordered.2 ho) (h.cached ho hc)⟩
  · rw [h'.eq, h.eq]
  · have := h'.next_le
    rwa [Parcel.objectCursor, h.offsets] at this
  · obtain ⟨new, hlog, hnew⟩ := h.log
    obtain ⟨new', hlog', hnew'⟩ := h'.log
    refine ⟨new' ++ new, by rw [hlog', hlog, List.append_assoc], fun a ha => ?_⟩
    rcases List.mem_append.1 ha with ha | ha
    · obtain ⟨hk, hb, havoid⟩ := hnew' a ha
      refine ⟨hk, hb, fun hbasic ho hc => ?_⟩
      rw [← h.offsets]
      exact havoid hbasic (h.ordered.2 ho) (h.cached ho hc)
    · exact hnew a ha

theorem Looked.weaken {p p' : Parcel} (h : Looked true p p') : Looked false p p' := by
  obtain ⟨new, hlog, hnew⟩ := h.log
  exact ⟨h.eq, h.read_le, h.next_le,
    ⟨new, hlog, fun a ha => ⟨(hnew a ha).1, (hnew a ha).2.1, fun h => absurd h (by simp)⟩⟩, h.cached⟩

/-- The effect of a reader started from a sound parcel, as a relation between states. -/
def Reads (b : Bool) (p p' : Parcel) : Prop := Sound p → Looked b p p'

instance (b : Bool) : IsPreorder Parcel (Reads b) where
  refl _ hp := Looked.refl hp b
  trans _ _ _ h h' hp := (h hp).trans (h' (hp.looked (h hp)))

/-! ## The steps of a reader -/

/-- The cursor has moved past `n` bytes. -/
def Parcel.advanced (p : Parcel) (n : Nat) : Parcel :=
  { p with readCursor := szAdd p.readCursor n }

/-- `n` bytes have been handed out, and the check has left the index `j`. -/
def Parcel.consumed (p : Parcel) (n j : Nat) : Parcel :=
  { p with
    readCursor := szAdd p.readCursor n
    nextObjectIdx := j
    log := ⟨.load, p.readCursor, n, p.loadBound⟩ :: p.log }

def Parcel.skipped (p : Parcel) (n : Nat) : Parcel := ((skipBytes n).run p).2

section Steps

variable {p : Parcel} {n : Nat}

omit [Target] in
theorem Sound.readable_add (hp : Sound p) (h : n ≤ p.getReadableBytes) :
    szAdd p.readCursor n = p.readCursor + n ∧ p.readCursor + n ≤ ptrdiffMax := by
  have hread := hp.read_le
  have hcap := hp.cap_le
  have hsize := hp.size_le
  have hle := le_getReadableBytes.1 h
  refine ⟨szAdd_of_lt ?_, by omega⟩
  simp only [ptrdiffMax, sizeLimit] at *
  omega

/-- A state that differs in the read cursor only, which has not gone back. -/
theorem looked_forward (hp : Sound p) {b : Bool} {c : Nat} (hge : p.readCursor ≤ c)
    (hle : c ≤ ptrdiffMax) : Looked b p { p with readCursor := c } :=
  ⟨rfl, hle, hp.next_le, ⟨[], rfl, by simp⟩, fun _ hc o ho => (hc o ho).trans hge⟩

theorem looked_advanced (hp : Sound p) (b : Bool) (h : n ≤ p.getReadableBytes) :
    Looked b p (p.advanced n) := by
  obtain ⟨hadd, hle⟩ := hp.readable_add h
  rw [Parcel.advanced, hadd]
  exact looked_forward hp (Nat.le_add_right _ _) hle

omit [Target] in
theorem load_inBounds (hp : Sound p) (h : n ≤ p.getReadableBytes) :
    Access.InBounds ⟨.load, p.readCursor, n, p.loadBound⟩ := by
  rcases le_getReadableBytes.1 h with h0 | hle
  · exact Or.inl h0
  · by_cases h0 : n = 0
    · exact Or.inl h0
    · refine Or.inr ?_
      have hd : p.data.isSome = true := by
        by_contra hd
        have := hp.null (by simpa using hd)
        have := hp.size_le
        omega
      simpa only [Parcel.loadBound, hd, if_true] using hle

theorem looked_consumed (hp : Sound p) (h : n ≤ p.getReadableBytes) {j : Nat}
    (hj : p.scan (szAdd p.readCursor n) = some j) : Looked true p (p.consumed n j) := by
  obtain ⟨hadd, hle⟩ := hp.readable_add h
  have hscan := scanned hp hj
  rw [hadd] at hscan
  have hcur : (p.consumed n j).readCursor = p.readCursor + n := hadd
  refine ⟨rfl, hcur ▸ hle, hscan.le_cursor, ⟨[_], rfl, fun a ha => ?_⟩, fun _ hc o ho => ?_⟩
  · rw [List.mem_singleton.1 ha]
    refine ⟨rfl, load_inBounds hp h, fun _ ho hc o hmem => ?_⟩
    rw [← List.take_append_drop j p.offsets] at hmem
    rcases List.mem_append.1 hmem with hmem | hmem
    · exact Or.inr (Or.inr (hscan.behind hc o hmem))
    · exact Or.inr (Or.inl (hscan.ahead ho o hmem))
  · rw [hcur]
    exact (hscan.behind hc o ho).trans (Nat.le_add_right _ _)

/-- Without a check the bytes are handed out whatever they are. -/
theorem looked_unchecked (hp : Sound p) (h : n ≤ p.getReadableBytes) :
    Looked false p (p.consumed n p.nextObjectIdx) := by
  obtain ⟨hadd, hle⟩ := hp.readable_add h
  have hcur : (p.consumed n p.nextObjectIdx).readCursor = p.readCursor + n := hadd
  refine ⟨rfl, hcur ▸ hle, hp.next_le, ⟨[_], rfl, fun a ha => ?_⟩, fun _ hc o ho => ?_⟩
  · rw [List.mem_singleton.1 ha]
    exact ⟨rfl, load_inBounds hp h, fun h => absurd h (by simp)⟩
  · rw [hcur]
    exact (hc o ho).trans (Nat.le_add_right _ _)

omit [Target] in
theorem run_skipBytes (p : Parcel) (n : Nat) :
    ((skipBytes n).run p).2 = { p with readCursor :=
      if p.getReadableBytes ≥ n then szAdd p.readCursor n
      else if p.readCursor < p.dataCapacity then p.dataCapacity else p.readCursor } := by
  simp only [skipBytes, run_bind, run_get]
  by_cases h : p.getReadableBytes ≥ n
  · rw [if_pos h, if_pos h]
    rfl
  · rw [if_neg h, if_neg h]
    by_cases hc : p.readCursor < p.dataCapacity
    · rw [if_pos hc, if_pos hc]
      rfl
    · rw [if_neg hc, if_neg hc]
      rfl

omit [Target] in
theorem skipped_eq (p : Parcel) (n : Nat) :
    p.skipped n = { p with readCursor := (p.skipped n).readCursor } := by
  rw [Parcel.skipped, run_skipBytes]

omit [Target] in
@[simp] theorem skipped_nextObjectIdx (p : Parcel) (n : Nat) :
    (p.skipped n).nextObjectIdx = p.nextObjectIdx := by
  rw [skipped_eq]

theorem skipBytes_reads (b : Bool) (n : Nat) : Tracks (Reads b) (skipBytes n) := by
  intro p hp
  have hread := hp.read_le
  have hcap := hp.cap_le
  rw [run_skipBytes]
  refine looked_forward hp ?_ ?_
  · by_cases h : p.getReadableBytes ≥ n
    · rw [if_pos h, (hp.readable_add h).1]
      omega
    · rw [if_neg h]
      split <;> omega
  · by_cases h : p.getReadableBytes ≥ n
    · rw [if_pos h, (hp.readable_add h).1]
      exact (hp.readable_add h).2
    · rw [if_neg h]
      split <;> omega

end Steps

/-! ## Runs of the readers -/

section Readers

variable {p : Parcel} {α : Type}

theorem run_read [Scalar α] (p : Parcel) (v : α) :
    (read v).run p =
      if Scalar.width α ≤ p.getReadableBytes then
        (p.scan (szAdd p.readCursor (Scalar.width α))).elim ((false, v), p.advanced (Scalar.width α))
          fun j => ((true, Scalar.decode (p.bytes.read p.readCursor (Scalar.width α))),
            p.consumed (Scalar.width α) j)
      else ((false, v), p) := by
  simp only [read, run_bind, run_get, run_ite, run_pure, run_validateReadData]
  by_cases h : Scalar.width α ≤ p.getReadableBytes
  · rw [if_pos h, if_pos h]
    cases p.scan (szAdd p.readCursor (Scalar.width α)) with
    | none => rfl
    | some j => rfl
  · rw [if_neg h, if_neg h]

theorem read_reads [Scalar α] (v : α) : Tracks (Reads true) (read v) := by
  intro p hp
  rw [run_read]
  by_cases h : Scalar.width α ≤ p.getReadableBytes
  · rw [if_pos h]
    cases hj : p.scan (szAdd p.readCursor (Scalar.width α)) with
    | none => exact looked_advanced hp true h
    | some j => exact looked_consumed hp h hj
  · rw [if_neg h]
    exact Looked.refl hp true

theorem readValue_reads [Scalar α] : Tracks (Reads true) (readValue : ParcelM α) :=
  Tracks.bind (read_reads _) fun _ => Tracks.pure _

theorem readPadded_reads (cast : BitVec 32 → α) (v : α) :
    Tracks (Reads true) (readPadded cast v) :=
  Tracks.bind (read_reads _) fun _ => Tracks.pure _

theorem map_reads {β : Type} {b : Bool} {m : ParcelM α} (f : α → β) (h : Tracks (Reads b) m) :
    Tracks (Reads b) (f <$> m) := fun p => h p

/-- What a reader that returns a pointer hands out. -/
def Parcel.handed (p : Parcel) (n : Nat) : Option (List UInt8) :=
  if p.data.isSome = true then some (p.bytes.read p.readCursor n) else none

omit [Target] in
/-- The two steps after an accepted check. -/
theorem run_handOut_advance (p : Parcel) (n j : Nat) :
    (handOut p.readCursor n).run { p with nextObjectIdx := j } =
        (p.handed n, ((handOut p.readCursor n).run { p with nextObjectIdx := j }).2) ∧
      ((advanceRead n).run ((handOut p.readCursor n).run { p with nextObjectIdx := j }).2).2 =
        p.consumed n j := ⟨rfl, rfl⟩

theorem run_readBufferWith (p : Parcel) (length : Nat) (isValidate : Bool) :
    (readBufferWith length isValidate).run p =
      if p.getReadableBytes ≥ length then
        (if isValidate then p.scan (szAdd p.readCursor length) else some p.nextObjectIdx).elim
          (none, p) fun j => (p.handed length, p.consumed length j)
      else (none, p) := by
  simp only [readBufferWith, run_bind, run_get, run_ite, run_pure]
  by_cases h : p.getReadableBytes ≥ length
  · rw [if_pos h, if_pos h]
    cases isValidate with
    | false => rfl
    | true =>
        simp only [if_true, run_validateReadData]
        cases p.scan (szAdd p.readCursor length) with
        | none => rfl
        | some j => rfl
  · rw [if_neg h, if_neg h]

theorem readBuffer_reads (length : Nat) : Tracks (Reads true) (readBuffer length) := by
  intro p hp
  rw [readBuffer, run_readBufferWith]
  by_cases h : p.getReadableBytes ≥ length
  · rw [if_pos h]
    simp only [if_true]
    cases hj : p.scan (szAdd p.readCursor length) with
    | none => exact Looked.refl hp true
    | some j => exact looked_consumed hp h hj
  · rw [if_neg h]
    exact Looked.refl hp true

theorem readBufferWith_reads (length : Nat) (isValidate : Bool) :
    Tracks (Reads false) (readBufferWith length isValidate) := by
  cases isValidate with
  | true => exact Tracks.mono (fun _ _ h hp => (h hp).weaken) (readBuffer_reads length)
  | false =>
      intro p hp
      rw [run_readBufferWith]
      by_cases h : p.getReadableBytes ≥ length
      · rw [if_pos h]
        exact looked_unchecked hp h
      · rw [if_neg h]
        exact Looked.refl hp false

theorem run_readUnpadBuffer (p : Parcel) (length : Nat) :
    (readUnpadBuffer length).run p =
      if p.getReadableBytes ≥ length then
        (p.scan (szAdd p.readCursor length)).elim (none, p) fun j =>
          (p.handed length, (p.consumed length j).skipped (getPadSize length))
      else (none, p) := by
  simp only [readUnpadBuffer, run_bind, run_get, run_ite, run_pure, run_validateReadData]
  by_cases h : p.getReadableBytes ≥ length
  · rw [if_pos h, if_pos h]
    cases p.scan (szAdd p.readCursor length) with
    | none => rfl
    | some j =>
        obtain ⟨hout, hadv⟩ := run_handOut_advance p length j
        simp only [Option.elim, Bool.not_true, Bool.false_eq_true, if_false]
        rw [hadv, hout, Parcel.skipped]
  · rw [if_neg h, if_neg h]

theorem Looked.skipped {p p' : Parcel} {b : Bool} (hp : Sound p) (h : Looked b p p') (n : Nat) :
    Looked b p (p'.skipped n) :=
  h.trans (skipBytes_reads b n p' (hp.looked h))

theorem readUnpadBuffer_reads (length : Nat) : Tracks (Reads true) (readUnpadBuffer length) := by
  intro p hp
  rw [run_readUnpadBuffer]
  by_cases h : p.getReadableBytes ≥ length
  · rw [if_pos h]
    cases hj : p.scan (szAdd p.readCursor length) with
    | none => exact Looked.refl hp true
    | some j => exact (looked_consumed hp h hj).skipped hp _
  · rw [if_neg h]
    exact Looked.refl hp true

theorem run_readCString (p : Parcel) :
    readCString.run p =
      ((p.bytes.read p.readCursor p.getReadableBytes).findIdx? (· == 0)).elim (none, p) fun k =>
        (p.scan (szAdd (szAdd p.readCursor k) 1)).elim (none, p) fun j =>
          ((p.handed (k + 1)).map (·.take k),
            (p.consumed (k + 1) j).skipped (getPadSize (k + 1))) := by
  simp only [readCString, run_bind, run_get]
  cases (p.bytes.read p.readCursor p.getReadableBytes).findIdx? (· == 0) with
  | none => rfl
  | some k =>
      simp only [run_bind, run_ite, run_pure, run_validateReadData, Option.elim]
      cases p.scan (szAdd (szAdd p.readCursor k) 1) with
      | none => rfl
      | some j =>
          obtain ⟨hout, hadv⟩ := run_handOut_advance p (k + 1) j
          simp only [Bool.not_true, Bool.false_eq_true, if_false]
          rw [hadv, hout, Parcel.skipped]

omit [Target] in
/-- The end of a C string, computed in two steps. -/
theorem Sound.szAdd_succ (hp : Sound p) {k : Nat} (h : k < p.getReadableBytes) :
    szAdd (szAdd p.readCursor k) 1 = szAdd p.readCursor (k + 1) := by
  obtain ⟨hadd, -⟩ := hp.readable_add h.le
  obtain ⟨hadd', hmax⟩ := hp.readable_add (Nat.succ_le_of_lt h)
  rw [hadd, hadd', szAdd_of_lt (by simp only [ptrdiffMax, sizeLimit] at *; omega)]
  omega

theorem readCString_reads : Tracks (Reads true) readCString := by
  intro p hp
  rw [run_readCString]
  cases hk : (p.bytes.read p.readCursor p.getReadableBytes).findIdx? (· == 0) with
  | none => exact Looked.refl hp true
  | some k =>
      have hlt : k < p.getReadableBytes := by
        have := (List.findIdx?_eq_some_iff_getElem.1 hk).1
        rwa [Mem.length_read] at this
      simp only [Option.elim, hp.szAdd_succ hlt]
      cases hj : p.scan (szAdd p.readCursor (k + 1)) with
      | none => exact Looked.refl hp true
      | some j => exact (looked_consumed hp (by omega) hj).skipped hp _

/-! ## Strings -/

/-- The characters of a buffer that ends in a terminator. -/
def charsOf [Scalar α] [DecidableEq α] (n : Nat) (buffer : List UInt8) : Option (List α) :=
  let units : List α := chars (n + 1) buffer
  if units.getLast? = some Scalar.zero then some (units.take n) else none

/-- How many bytes the characters of a string and its terminator take. -/
def charBody (α : Type) [Scalar α] (n : Nat) : Nat := szMul (szAdd n 1) (Scalar.width α)

theorem run_basicReadBuffer (hcheck : Target.objectCheck = true) (p : Parcel) (length : Nat) :
    (basicReadBuffer length).run p =
      if p.getReadableBytes ≥ length then
        (p.scan (szAdd p.readCursor length)).elim (none, p.advanced length) fun j =>
          (p.handed length, p.consumed length j)
      else (none, p) := by
  simp only [basicReadBuffer, hcheck, Bool.not_true, Bool.false_eq_true, if_false, run_bind,
    run_get, run_ite, run_pure, run_validateReadData]
  by_cases h : p.getReadableBytes ≥ length
  · rw [if_pos h, if_pos h]
    cases p.scan (szAdd p.readCursor length) with
    | none => rfl
    | some j => rfl
  · rw [if_neg h, if_neg h]

/-- The buffer of the characters. Without the check no range is rejected, so the two builds
agree. -/
theorem run_charBuffer (p : Parcel) {length : Nat} (h : length ≤ p.getReadableBytes) :
    (if Target.objectCheck = true then basicReadBuffer length else readBuffer length).run p =
      (p.scan (szAdd p.readCursor length)).elim (none, p.advanced length) fun j =>
        (p.handed length, p.consumed length j) := by
  by_cases hcheck : Target.objectCheck = true
  · rw [if_pos hcheck, run_basicReadBuffer hcheck, if_pos h]
  · rw [if_neg hcheck, readBuffer, run_readBufferWith, if_pos h]
    simp only [Parcel.scan, if_neg hcheck, if_true]
    rfl

omit [Target] in
theorem Sound.data_isSome (hp : Sound p) {n : Nat} (h0 : 0 < n) (h : n ≤ p.getReadableBytes) :
    p.data.isSome = true := by
  by_contra hd
  have hnull := hp.null (by simpa using hd)
  have hsize := hp.size_le
  have hle := le_getReadableBytes.1 h
  omega

theorem run_readCharBody [Scalar α] [DecidableEq α] (hp : Sound p) (n : Nat) :
    (readCharBody n : ParcelM (Option (List α))).run p =
      if charBody α n > n ∧ charBody α n ≤ p.getReadableBytes then
        (p.scan (szAdd p.readCursor (charBody α n))).elim (none, p.advanced (charBody α n)) fun j =>
          (charsOf n (p.bytes.read p.readCursor (charBody α n)),
            (p.consumed (charBody α n) j).skipped (getPadSize (charBody α n)))
      else (none, p) := by
  have hcap : szMul (szAdd n 1) (Scalar.width α) = charBody α n := rfl
  simp only [readCharBody, hcap, run_bind, run_get]
  by_cases h : charBody α n > n ∧ charBody α n ≤ p.getReadableBytes
  · have hd : p.handed (charBody α n) = some (p.bytes.read p.readCursor (charBody α n)) :=
      if_pos (hp.data_isSome (by omega) h.2)
    rw [if_pos h, if_neg (not_not.2 h), run_bind, run_charBuffer p h.2]
    cases p.scan (szAdd p.readCursor (charBody α n)) with
    | none => rfl
    | some j =>
        simp only [Option.elim, hd, run_bind, run_pure]
        rw [Parcel.skipped, charsOf]
  · rw [if_neg h, if_pos h, run_pure]

theorem run_readAfterLength [Scalar α] [DecidableEq α] (p : Parcel) (oldCursor : Nat)
    (dataLength : BitVec 32) :
    (readAfterLength oldCursor dataLength : ParcelM (_ × Option (List α))).run p =
      if dataLength.toInt < 0 ∨ dataLength.toInt ≥ int32Max then ((some dataLength, none), p)
      else
        let r := (readCharBody dataLength.toNat : ParcelM (Option (List α))).run p
        r.1.elim ((none, none), { r.2 with readCursor := oldCursor }) fun units =>
          ((some dataLength, some units), r.2) := by
  rw [readAfterLength]
  by_cases hlen : dataLength.toInt < 0 ∨ dataLength.toInt ≥ int32Max
  · rw [if_pos hlen, if_pos hlen, run_pure]
  · rw [if_neg hlen, if_neg hlen, run_bind]
    obtain ⟨units?, q⟩ := (readCharBody dataLength.toNat : ParcelM (Option (List α))).run p
    cases units? with
    | none => rfl
    | some units => rfl

theorem run_readChars [Scalar α] [DecidableEq α] (p : Parcel) :
    (readChars : ParcelM (_ × Option (List α))).run p =
      if 4 ≤ p.getReadableBytes then
        (p.scan (szAdd p.readCursor 4)).elim ((none, none), p.advanced 4) fun j =>
          (readAfterLength p.readCursor (Scalar.decode (p.bytes.read p.readCursor 4))).run
            (p.consumed 4 j)
      else ((none, none), p) := by
  have hw : Scalar.width (BitVec 32) = 4 := rfl
  simp only [readChars, run_bind, run_get, run_read, hw]
  by_cases h : 4 ≤ p.getReadableBytes
  · rw [if_pos h, if_pos h]
    cases p.scan (szAdd p.readCursor 4) with
    | none => rfl
    | some j => rfl
  · rw [if_neg h, if_neg h]
    rfl

/-- The characters of a string are read without moving the index past another object, when the
length before them was. -/
theorem readCharBody_next [Scalar α] [DecidableEq α] (hp : Sound p)
    (hahead : ∀ o ∈ p.offsets.drop p.nextObjectIdx, p.readCursor ≤ o) (n : Nat) :
    ((readCharBody n : ParcelM (Option (List α))).run p).2.nextObjectIdx = p.nextObjectIdx := by
  rw [run_readCharBody hp]
  by_cases h : charBody α n > n ∧ charBody α n ≤ p.getReadableBytes
  · rw [if_pos h]
    cases hj : p.scan (szAdd p.readCursor (charBody α n)) with
    | none => rfl
    | some j =>
        rw [Option.elim_some, skipped_nextObjectIdx]
        exact Parcel.scan_ahead hp hahead hj
  · rw [if_neg h]

theorem readCharBody_reads [Scalar α] [DecidableEq α] (n : Nat) :
    Tracks (Reads true) (readCharBody n : ParcelM (Option (List α))) := by
  intro p hp
  rw [run_readCharBody hp]
  by_cases h : charBody α n > n ∧ charBody α n ≤ p.getReadableBytes
  · rw [if_pos h]
    cases hj : p.scan (szAdd p.readCursor (charBody α n)) with
    | none => exact looked_advanced hp true h.2
    | some j => exact (looked_consumed hp h.2 hj).skipped hp _
  · rw [if_neg h]
    exact Looked.refl hp true

/-- A string reader that fails puts the cursor back, and the objects the index has passed still
end before it. -/
theorem readChars_reads [Scalar α] [DecidableEq α] :
    Tracks (Reads true) (readChars : ParcelM (_ × Option (List α))) := by
  intro p hp
  rw [run_readChars]
  by_cases h : 4 ≤ p.getReadableBytes
  swap
  · rw [if_neg h]
    exact Looked.refl hp true
  rw [if_pos h]
  cases hj : p.scan (szAdd p.readCursor 4) with
  | none => exact looked_advanced hp true h
  | some j =>
      rw [Option.elim_some, run_readAfterLength]
      have hfirst := looked_consumed hp h hj
      generalize (Scalar.decode (p.bytes.read p.readCursor 4) : BitVec 32) = dataLength
      by_cases hlen : dataLength.toInt < 0 ∨ dataLength.toInt ≥ int32Max
      · rw [if_pos hlen]
        exact hfirst
      · rw [if_neg hlen]
        have hboth := hfirst.trans (readCharBody_reads (α := α) dataLength.toNat _ (hp.looked hfirst))
        have hnext := readCharBody_next (α := α) (hp.looked hfirst)
        dsimp only
        cases ((readCharBody dataLength.toNat : ParcelM (Option (List α))).run (p.consumed 4 j)).1 with
        | some units => exact hboth
        | none =>
            rw [Option.elim_none]
            refine ⟨by rw [hboth.eq], hp.read_le, hboth.next_le, hboth.log, fun ho hc => ?_⟩
            have hscan := scanned hp hj
            have hadd := (hp.readable_add h).1
            have hindex := hnext (by
              intro o hmem
              have := hscan.ahead ho o hmem
              exact this) dataLength.toNat
            intro o hmem
            rw [show Parcel.offsets { ((readCharBody dataLength.toNat : ParcelM (Option (List α))).run
              (p.consumed 4 j)).2 with readCursor := p.readCursor } = p.offsets from hboth.offsets] at hmem
            simp only [hindex] at hmem
            exact hscan.behind hc o hmem

/-! ## Vectors -/

theorem readElems_reads {readElem : α → ParcelM (Bool × α)}
    (h : ∀ v, Tracks (Reads true) (readElem v)) (vs : List α) :
    Tracks (Reads true) (readElems readElem vs) := by
  induction vs with
  | nil => exact Tracks.pure _
  | cons v vs ih =>
      rw [readElems]
      refine Tracks.bind (h v) fun (ok, v') => ?_
      cases ok with
      | false => exact Tracks.pure _
      | true => exact Tracks.bind ih fun (_, _) => Tracks.pure _

theorem readVector_reads {size maxSize : Nat} {zero : α} {readElem : α → ParcelM (Bool × α)}
    (h : ∀ v, Tracks (Reads true) (readElem v)) (val : Option (List α)) :
    Tracks (Reads true) (readVector size maxSize zero readElem val) := by
  cases val with
  | none => exact Tracks.pure _
  | some val =>
      rw [readVector]
      refine Tracks.bind readValue_reads fun len => Tracks.ite (fun _ => Tracks.pure _) fun _ => ?_
      refine Tracks.bind (fun _ hp => Looked.refl hp true) fun q =>
        Tracks.ite (fun _ => Tracks.pure _) fun _ => ?_
      refine Tracks.bind (readElems_reads h _) fun (ok, val') => ?_
      cases ok with
      | false => exact Tracks.pure _
      | true => exact Tracks.bind (skipBytes_reads true _) fun _ => Tracks.pure _

theorem readStringsVector_reads {readElem : ParcelM (List α)} (h : Tracks (Reads true) readElem)
    (val : Option (List (List α))) : Tracks (Reads true) (readStringsVector readElem val) := by
  cases val with
  | none => exact Tracks.pure _
  | some val =>
      rw [readStringsVector]
      refine Tracks.bind readValue_reads fun len => Tracks.ite (fun _ => Tracks.pure _) fun _ => ?_
      refine Tracks.bind (fun _ hp => Looked.refl hp true) fun q =>
        Tracks.ite (fun _ => Tracks.pure _) fun _ => ?_
      exact Tracks.bind (Tracks.mapM (fun _ => h) _) fun _ => Tracks.pure _

end Readers

/-! ## All readers -/

theorem ScalarKind.valueReader_reads {k : ScalarKind} {m : ParcelM k.Elem}
    (h : k.valueReader = some m) : Tracks (Reads true) m := by
  cases k with
  | int8Unaligned | int16Unaligned | uint8Unaligned | uint16Unaligned =>
      exact absurd h (by simp [valueReader])
  | bool | int8 | int16 | uint8 | uint16 =>
      rw [← Option.some.inj h]
      exact map_reads _ readValue_reads
  | _ =>
      rw [← Option.some.inj h]
      exact readValue_reads

theorem ScalarKind.refReader_reads {k : ScalarKind} {m : k.Elem → ParcelM (Bool × k.Elem)}
    (h : k.refReader = some m) (value : k.Elem) : Tracks (Reads true) (m value) := by
  cases k with
  | boolUnaligned | pointer => exact absurd h (by simp [refReader])
  | bool | int8 | int16 | uint8 | uint16 =>
      rw [← Option.some.inj h]
      exact readPadded_reads _ _
  | _ =>
      rw [← Option.some.inj h]
      exact read_reads _

theorem VectorKind.reads (k : VectorKind) (val : Option (List k.Elem)) :
    Tracks (Reads true) (k.read val) := by
  cases k with
  | bool | int16 =>
      refine readVector_reads (fun v => ?_) val
      exact readPadded_reads _ v
  | string | string16 => exact readStringsVector_reads (map_reads _ readChars_reads) val
  | _ =>
      refine readVector_reads (fun v => ?_) val
      exact CUtils.read_reads v

/-- **What a basic reader does**: the bytes it hands out are data and belong to no object. -/
theorem BasicReader.reads {α : Type} {m : ParcelM α} (h : BasicReader m) :
    Tracks (Reads true) m := by
  cases h with
  | scalarValue h => exact ScalarKind.valueReader_reads h
  | scalarRef h value => exact ScalarKind.refReader_reads h value
  | buffer length => exact readBuffer_reads length
  | unpadBuffer length => exact readUnpadBuffer_reads length
  | cString => exact readCString_reads
  | string => exact map_reads _ readChars_reads
  | stringRef => exact map_reads _ readChars_reads
  | string16 => exact map_reads _ readChars_reads
  | string16Ref => exact map_reads _ readChars_reads
  | string8WithLength len => exact map_reads _ readChars_reads
  | string16WithLength len => exact map_reads _ readChars_reads
  | vector k val => exact k.reads val

theorem checkOffsets_reads (b : Bool) : Tracks (Reads b) checkOffsets := by
  intro p hp
  have hrun : (checkOffsets.run p).2 = p := by
    simp only [checkOffsets, run_bind, run_get, run_ite, run_pure]
    split <;> rfl
  rw [hrun]
  exact Looked.refl hp b

theorem Reader.reads {α : Type} {m : ParcelM α} (h : Reader m) : Tracks (Reads false) m := by
  cases h with
  | basic h => exact Tracks.mono (fun _ _ h hp => (h hp).weaken) h.reads
  | bufferWith length isValidate => exact readBufferWith_reads length isValidate
  | checkOffsets => exact checkOffsets_reads false
  | object length =>
      refine Tracks.bind (checkOffsets_reads false) fun ok => ?_
      cases ok with
      | false => exact Tracks.pure _
      | true => exact readBufferWith_reads length false

end CUtils
