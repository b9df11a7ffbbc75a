import CUtils.Parcel.Holder
import CUtils.Parcel.Twin
import CUtils.Parcel.TwinReads

/-!
# Undoing writes

`RewindWrite` goes back to a position and drops the recorded objects that do not lie below it. What
it leaves behind is more than the parcel had there: the block has grown, the old bytes are still in
it, and the offset table has just the size of its entries. Nothing of this shows. If the position is
where the parcel was before some writes, the parcel has the same data as one in which they never
took place (`Twin`), so later writes and reads are the same.

A recorded object is taken to have the size of a flat binder object. One that wrote less reaches
beyond the data written for it, and going back to the end of that data drops it.
-/

namespace CUtils

open StateRun ByteMemory Parcel

/-! ## The objects that are kept -/

/-- Dropping from the end what does not lie below the position leaves what comes before it. -/
theorem keptObjects_append {a b : List Nat} {pos : Nat} (hle : ∀ o ∈ a ++ b, o ≤ ptrdiffMax)
    (ha : ∀ o ∈ a, o + flatSize ≤ pos) (hb : ∀ o ∈ b, pos < o + flatSize) {n : Nat}
    (hn : a.length ≤ n) (hlen : n ≤ (a ++ b).length) : keptObjects (a ++ b) pos n = a.length := by
  induction n with
  | zero =>
      rw [keptObjects]
      omega
  | succ n ih =>
      have hget : (a ++ b)[n]? = some ((a ++ b).getD n 0) := by
        rw [List.getD_eq_getElem?_getD, List.getElem?_eq_getElem hlen]
        rfl
      rw [keptObjects, szAdd_flatSize (hle _ (List.mem_of_getElem? hget))]
      by_cases hlast : a.length = n + 1
      · rw [List.getElem?_append_left (by omega)] at hget
        rw [if_pos (ha _ (List.mem_of_getElem? hget)), hlast]
      · rw [List.getElem?_append_right (by omega)] at hget
        rw [if_neg (Nat.not_le.2 (hb _ (List.mem_of_getElem? hget)))]
        exact ih (by omega) (by omega)

/-- If the last object is kept, all are. -/
theorem keptObjects_all {p : Parcel} {a b : List Nat} {pos : Nat} (hsplit : p.offsets = a ++ b)
    (hkept : keptObjects p.offsets pos p.objectCursor = a.length)
    (hlast : szAdd (p.offsets.getD (p.objectCursor - 1) 0) flatSize ≤ pos) : p.offsets = a := by
  have hlen : p.objectCursor = a.length + b.length := by
    rw [Parcel.objectCursor, hsplit, List.length_append]
  have hnil : b.length = 0 := by
    cases hn : p.objectCursor with
    | zero => omega
    | succ n =>
        rw [hn, Nat.add_sub_cancel] at hlast
        rw [hn, keptObjects, if_pos hlast] at hkept
        omega
  rw [hsplit, List.eq_nil_of_length_eq_zero hnil, List.append_nil]

/-- In an ascending list what satisfies a downward closed predicate comes first. -/
theorem filter_append_filter_of_pairwise {α : Type} {R : α → α → Prop} {P : α → Prop}
    [DecidablePred P] (hP : ∀ x y, R x y → P y → P x) {l : List α} (h : l.Pairwise R) :
    l.filter (fun x => P x) ++ l.filter (fun x => ¬ P x) = l := by
  induction l with
  | nil => rfl
  | cons x xs ih =>
      rw [List.pairwise_cons] at h
      by_cases hx : P x
      · rw [List.filter_cons_of_pos (by simpa using hx), List.filter_cons_of_neg (by simpa using hx),
          List.cons_append, ih h.2]
      · have hnone : ∀ y ∈ xs, ¬ P y := fun y hy hPy => hx (hP x y (h.1 y hy) hPy)
        rw [List.filter_cons_of_neg (by simpa using hx), List.filter_cons_of_pos (by simpa using hx),
          List.filter_eq_nil_iff.2 (by simpa using hnone), List.nil_append,
          List.filter_eq_self.2 (by simpa using hnone)]

/-! ## One call -/

/-- The parcel has gone back to `pos`, with the offsets in `kept`. -/
structure WentBack (pos : Nat) (kept : List Nat) (p p' : Parcel) : Prop where
  fit : Fit p'
  cursor : p'.writeCursor = pos
  size : p'.dataSize = pos
  bytes : p'.bytes = p.bytes
  offsets : p'.offsets = kept

variable [Target]

/-- What `RewindWrite` does, if the objects that lie below the position were recorded first. -/
theorem rewindWrite_back (hcheck : Target.objectCheck = true) {p : Parcel} (h : Fit p)
    {pos : Nat} (hpos : pos ≤ p.dataSize) {a b : List Nat} (hsplit : p.offsets = a ++ b)
    (ha : ∀ o ∈ a, o + flatSize ≤ pos) (hb : ∀ o ∈ b, pos < o + flatSize) :
    ((rewindWrite pos).run p).1 = true ∧ WentBack pos a p ((rewindWrite pos).run p).2 := by
  have hsound := (rewindWrite_steady h.sound pos).sound
  have hle : ∀ o ∈ a, o ≤ defaultCapacity := fun o ho =>
    h.offsets_le o (hsplit ▸ List.mem_append_left b ho)
  have hnodup : a.Nodup := (List.nodup_append.1 (hsplit ▸ h.offsets_nodup)).1
  have hkept : keptObjects p.offsets pos p.objectCursor = a.length := by
    rw [Parcel.objectCursor, hsplit]
    have hmax := h.sound.offsets_le
    rw [hsplit] at hmax
    exact keptObjects_append hmax ha hb (by simp) le_rfl
  rw [run_rewindWrite, if_neg (Nat.not_lt.2 hpos), hkept] at hsound ⊢
  by_cases hkeep : Target.objectCheck = false ∨ p.offsets = [] ∨
      szAdd (p.offsets.getD (p.objectCursor - 1) 0) flatSize ≤ pos
  · -- nothing is dropped
    rw [if_pos hkeep] at hsound ⊢
    have hall : p.offsets = a := by
      rcases hkeep with hoff | hnil | hlast
      · rw [hcheck] at hoff
        cases hoff
      · rw [hnil] at hsplit ⊢
        exact (List.append_eq_nil_iff.1 hsplit.symm).1.symm
      · exact keptObjects_all hsplit hkept hlast
    exact ⟨rfl, ⟨hsound, rfl, ⟨h.ample.writable, h.ample.allocator, h.ample.heap, h.ample.max,
      h.ample.regular⟩, h.offsets_le, h.offsets_nodup⟩, rfl, rfl, rfl, hall⟩
  · rw [if_neg hkeep] at hsound ⊢
    dsimp only at hsound ⊢
    by_cases hk : a.length = 0
    · rw [if_pos hk] at hsound ⊢
      have hnil := List.eq_nil_of_length_eq_zero hk
      subst hnil
      exact ⟨rfl, ⟨hsound, rfl, ⟨h.ample.writable, h.ample.allocator, h.ample.heap, h.ample.max,
        h.ample.regular⟩, hle, hnodup⟩, rfl, rfl, rfl, rfl⟩
    · rw [if_neg hk] at hsound ⊢
      have hcount : a.length ≤ p.objectCursor := by simp [Parcel.objectCursor, hsplit]
      have hlimit := h.objectCursor_le
      simp only [defaultCapacity] at hlimit
      have hsize : szMul a.length binderSize ≤ ptrdiffMax := by
        rw [szMul_of_lt (by simp only [binderSize, sizeLimit]; omega)]
        simp only [binderSize, ptrdiffMax]
        omega
      obtain ⟨m, hm⟩ := Option.isSome_iff_exists.1 (h.ample.heap 0)
      have hgrant : p.grant (szMul a.length binderSize) = some m := by
        rw [Parcel.grant, if_pos hsize, hm]
      rw [hgrant] at hsound ⊢
      have hcut : ((p.rewound pos).allocated.cut a.length).offsets = a := by
        show p.offsets.take a.length = a
        rw [hsplit, List.take_left]
      exact ⟨rfl, ⟨hsound, rfl, ⟨h.ample.writable, h.ample.allocator, fun i => h.ample.heap (i + 1),
        h.ample.max, h.ample.regular⟩, hcut.symm ▸ hle, hcut.symm ▸ hnodup⟩, rfl, rfl, rfl, hcut⟩

/-! ## The writes that are undone -/

omit [Target] in
/-- Data and offsets have been added behind `pos` only; the offsets below the index `k` were there
before. -/
structure Late (pos k : Nat) (p : Parcel) : Prop where
  sound : Sound p
  cursor : pos ≤ p.writeCursor
  offsets : ∀ o ∈ p.offsets.drop k, pos ≤ o

section Late

variable {pos k : Nat}

theorem Late.extended {p p' : Parcel} (h : Late pos k p) (he : Extended p p')
    (ho : p'.offsets = p.offsets) : Late pos k p' := by
  obtain ⟨n, hcursor, -⟩ := he.moved
  have hold := h.cursor
  exact ⟨he.sound, by omega, ho ▸ h.offsets⟩

theorem Writer.late (w : Writer) : Keeps (Late pos k) w.exec := by
  intro p h
  obtain ⟨bs, hwrote, -⟩ := w.wrote h.sound
  exact h.extended (hwrote.extended h.sound) hwrote.frame.offsets

theorem ensureObjectsCapacity_late : Keeps (Late pos k) ensureObjectsCapacity := fun p h =>
  h.extended (ensureObjectsCapacity_extends p h.sound) (offsets_ensureObjectsCapacity p)

theorem holdParcelable_late (o : Parcelable) (offset : Nat) :
    Keeps (Late pos k) (holdParcelable o offset) := fun p h =>
  h.extended (holdParcelable_extends o offset p h.sound) rfl

theorem writeObjectOffset_late {offset : Nat} (hoffset : pos ≤ offset) :
    Keeps (Late pos k) (writeObjectOffset offset) := by
  intro p h
  have he := writeObjectOffset_extends offset p h.sound
  rw [run_writeObjectOffset] at he ⊢
  by_cases hno : offset > p.dataSize ∨ offset ∈ p.offsets
  · rw [if_pos hno]
    exact h
  · rw [if_neg hno] at he ⊢
    refine ⟨he.sound, h.cursor, fun o ho => ?_⟩
    change o ∈ (p.offsets ++ [offset]).drop k at ho
    rw [List.drop_append] at ho
    rcases List.mem_append.1 ho with ho | ho
    · exact h.offsets o ho
    · rw [List.mem_singleton.1 (List.mem_of_mem_drop ho)]
      exact hoffset

theorem writeRemoteObject_late {o : Option Parcelable}
    (ho : ∀ x ∈ o, Keeps (Late pos k) x.marshalling) :
    Keeps (Late pos k) (writeRemoteObject o) := by
  refine Tracks.get_bind fun p h => ?_
  have hoffset := h.cursor
  cases o with
  | none => exact h
  | some x =>
      suffices hrest : Keeps (Late pos k) _ from hrest p h
      refine Tracks.ite (fun _ => Tracks.pure _) fun _ => ?_
      refine Tracks.bind ensureObjectsCapacity_late fun _ => ?_
      refine Tracks.ite (fun _ => Tracks.pure _) fun _ => ?_
      refine Tracks.bind (ho x rfl) fun _ => ?_
      refine Tracks.ite (fun _ => Tracks.pure _) fun _ => ?_
      refine Tracks.bind (writeObjectOffset_late hoffset) fun _ => ?_
      exact Tracks.ite (fun _ => Tracks.bind (holdParcelable_late x _) fun _ => Tracks.pure _)
        fun _ => Tracks.pure _

/-- Taking back a failed write does not go back behind `pos`. -/
theorem Late.rollback {p p' : Parcel} (h : Late pos k p) (h' : Late pos k p')
    (he : Extended p p') :
    Late pos k { p' with writeCursor := p.writeCursor, dataSize := p.dataSize } :=
  ⟨(he.rollback h.sound).sound, h.cursor, h'.offsets⟩

theorem writeInt32_late (v : BitVec 32) : Keeps (Late pos k) (writeInt32 v) :=
  Writer.late (.scalar .int32 v)

theorem writeParcelable_late {o : Option Parcelable}
    (hext : ∀ x ∈ o, Tracks Extends x.marshalling)
    (ho : ∀ x ∈ o, Keeps (Late pos k) x.marshalling) : Keeps (Late pos k) (writeParcelable o) := by
  intro p h
  cases o with
  | none => exact writeInt32_late 0 p h
  | some x =>
      cases hr : x.asRemote with
      | false =>
          rw [run_writeParcelable_plain hr]
          exact Tracks.bind (writeInt32_late 1)
            (fun _ => Tracks.ite (fun _ => ho x rfl) fun _ => Tracks.pure _) p h
      | true =>
          rw [run_writeParcelable_remote hr]
          dsimp only
          have hfirst := writeInt32_late 1 p h
          have hsecond := writeRemoteObject_late ho _ hfirst
          have he := writeInt32_extends 1 p h.sound
          have he' := he.trans (writeRemoteObject_extends hext _ he.sound)
          split
          · split
            · exact hsecond
            · exact h.rollback hsecond he'
          · exact hfirst

theorem writeStrongParcelable_late {o : Option Parcelable}
    (hext : ∀ x ∈ o, Tracks Extends x.marshalling)
    (ho : ∀ x ∈ o, Keeps (Late pos k) x.marshalling) :
    Keeps (Late pos k) (writeStrongParcelable o) := by
  cases o with
  | none => exact Tracks.bind (writeInt32_late 0) fun _ => Tracks.pure _
  | some x =>
      refine writeParcelable_late (o := some (x.setBehavior holdObject)) (fun y hy => ?_)
        (fun y hy => ?_)
      · rw [← Option.some.inj hy]
        exact hext x rfl
      · rw [← Option.some.inj hy]
        exact ho x rfl

theorem Writing.late {m : ParcelM Bool} (h : Writing m) : Keeps (Late pos k) m := by
  induction h with
  | ret b => exact Tracks.pure b
  | write w _ ih => exact Tracks.bind w.late ih
  | writeRemoteObject o _ _ iho ih => exact Tracks.bind (writeRemoteObject_late iho) ih
  | writeParcelable o ho _ iho ih =>
      exact Tracks.bind (writeParcelable_late (Writing.extends ho) iho) ih
  | writeStrongParcelable o ho _ iho ih =>
      exact Tracks.bind (writeStrongParcelable_late (Writing.extends ho) iho) ih

theorem WriteOp.late (op : WriteOp) : Keeps (Late pos k) op.exec := by
  cases op with
  | write w => exact w.late
  | writeRemoteObject o ho => exact writeRemoteObject_late fun x hx => (ho x hx).late
  | writeParcelable o ho =>
      exact writeParcelable_late (Writing.extends ho) fun x hx => (ho x hx).late
  | writeStrongParcelable o ho =>
      exact writeStrongParcelable_late (Writing.extends ho) fun x hx => (ho x hx).late

theorem writeAll_late (ops : List WriteOp) : Keeps (Late pos k) (writeAll ops) :=
  Tracks.mapM WriteOp.late ops

end Late

/-- What is recorded by writes comes behind the data that was there. -/
theorem writeAll_offsets (ops : List WriteOp) {p : Parcel} (h : Fit p) :
    ∃ new, ((writeAll ops).run p).2.offsets = p.offsets ++ new ∧ ∀ o ∈ new, p.dataSize ≤ o := by
  obtain ⟨new, hnew⟩ := (writeAll_extends ops p h.sound).offsets
  have hstart : Late p.dataSize p.offsets.length p :=
    ⟨h.sound, h.synced.ge, fun o ho => absurd ho (by simp)⟩
  have hlate := (writeAll_late ops p hstart).offsets
  rw [hnew, List.drop_left] at hlate
  exact ⟨new, hnew, hlate⟩

/-! ## The parcel afterwards -/

/-- **Going back to where a sequence of writes started gives the data the parcel had there.** -/
theorem rewindWrite_twin (hcheck : Target.objectCheck = true)
    (hmem : defaultCapacity ≤ Target.memMaxLen) {q : Parcel} (h : Fit q)
    (hend : ∀ o ∈ q.offsets, o + flatSize ≤ q.dataSize) (undone : List WriteOp) :
    Twin 0 ((rewindWrite q.dataSize).run ((writeAll undone).run q).2).2 q := by
  have he := writeAll_extends undone q h.sound
  obtain ⟨n, -, hsize⟩ := he.moved
  obtain ⟨new, hsplit, hnew⟩ := writeAll_offsets undone h
  have hlater : ∀ o ∈ new, q.dataSize < o + flatSize := by
    intro o ho
    have := hnew o ho
    simp only [flatSize]
    omega
  obtain ⟨-, hback⟩ := rewindWrite_back hcheck (writeAll_fit hmem undone h) (by omega) hsplit hend
    hlater
  refine ⟨hback.fit, h, ⟨?_, hback.size, ?_, hback.offsets⟩, Nat.zero_le _⟩
  · rw [hback.cursor, h.synced]
  · rw [hback.size, hback.bytes]
    exact he.data

omit [Target] in
theorem run_rewindRead_zero (p : Parcel) :
    (rewindRead 0).run p = (true, { p with readCursor := 0, nextObjectIdx := 0 }) := by
  simp only [rewindRead, run_bind, run_get]
  rw [if_neg (Nat.not_lt_zero _)]
  rfl

omit [Target] in
/-- From the start, both are read alike. -/
theorem rewindRead_twin (c : Nat) :
    Coupled (Twin c) (fun _ => ReadTwin) (rewindRead 0) (rewindRead 0) := by
  intro p q h
  rw [run_rewindRead_zero, run_rewindRead_zero]
  exact ⟨rfl, { h.left.sound with read_le := Nat.zero_le _, next_le := Nat.zero_le _ },
    { h.right.sound with read_le := Nat.zero_le _, next_le := Nat.zero_le _ }, h.alike.size,
    h.alike.bytes, h.alike.offsets, rfl, Or.inl rfl⟩

/-- The parcel after a sequence of writes to a new one. -/
def written (allocator : Nat) (heap : Nat → Option Mem) (ops : List WriteOp) : Parcel :=
  ((writeAll ops).run (Parcel.new allocator heap)).2

/-- The same after a further sequence of writes has been taken back. -/
def undoneTo (q : Parcel) (undone : List WriteOp) : Parcel :=
  ((rewindWrite q.dataSize).run ((writeAll undone).run q).2).2

/-- No later call tells the parcels apart: the results of further writes, the data and the offsets
they leave, and what is read from the start. -/
def SameFuture (p q : Parcel) : Prop :=
  ∀ after : List WriteOp,
    let rp := (writeAll after).run p
    let rq := (writeAll after).run q
    rp.1 = rq.1 ∧ rp.2.dataSize = rq.2.dataSize ∧
      rp.2.bytes.read 0 rp.2.dataSize = rq.2.bytes.read 0 rq.2.dataSize ∧
      rp.2.offsets = rq.2.offsets ∧
      ∀ {α : Type} {m : ParcelM α}, Reading m →
        ((rewindRead 0 >>= fun _ => m).run rp.2).1 = ((rewindRead 0 >>= fun _ => m).run rq.2).1

theorem Twin.sameFuture (hmem : defaultCapacity ≤ Target.memMaxLen) {p q : Parcel}
    (h : Twin 0 p q) : SameFuture p q := by
  intro after
  obtain ⟨hresults, htwin⟩ := writeAll_couples hmem after 0 p q h
  refine ⟨hresults, htwin.alike.size, ?_, htwin.alike.offsets, fun hm => ?_⟩
  · rw [← htwin.alike.size]
    exact htwin.alike.bytes.read_eq (by omega)
  · exact (Coupled.bind (rewindRead_twin 0) (fun _ => hm.couples) _ _ htwin).1

/-- **`RewindWrite` undoes writes.** In a parcel that has been written to, with offsets that ascend,
going back to a position leaves the data below it and the objects that end below it. Going back to
where the parcel was before some writes leaves a parcel that further writes, and reads of at least
one byte, do not tell from one without these writes, if the objects recorded before them end where
the parcel goes back to. -/
theorem rewindWrite_undoes (hcheck : Target.objectCheck = true)
    (hmem : defaultCapacity ≤ Target.memMaxLen) (allocator : Nat) {heap : Nat → Option Mem}
    (hheap : ∀ i, (heap i).isSome = true) (ops undone : List WriteOp) :
    let p := written allocator heap ops
    (p.offsets.Pairwise (· < ·) → ∀ pos ≤ p.dataSize,
      let r := (rewindWrite pos).run p
      r.1 = true ∧ r.2.writeCursor = pos ∧ r.2.dataSize = pos ∧
        r.2.offsets = p.offsets.filter fun o => o + flatSize ≤ pos) ∧
    ((∀ o ∈ p.offsets, o + flatSize ≤ p.dataSize) → SameFuture (undoneTo p undone) p) := by
  intro p
  have hfit : Fit p := writeAll_fit hmem ops (Fit.new allocator hheap)
  refine ⟨fun hsorted pos hpos => ?_, fun hend => ?_⟩
  · have hsplit := filter_append_filter_of_pairwise (P := fun o => o + flatSize ≤ pos)
      (fun x y hxy hy => by omega) hsorted
    obtain ⟨hok, hback⟩ := rewindWrite_back hcheck hfit hpos hsplit.symm
      (fun o ho => by simpa using (List.mem_filter.1 ho).2)
      (fun o ho => by simpa using (List.mem_filter.1 ho).2)
    exact ⟨hok, hback.cursor, hback.size, hback.offsets⟩
  · exact (rewindWrite_twin hcheck hmem hfit hend undone).sameFuture hmem

/-- A remote object whose `Marshalling` writes `size` zeroed bytes. -/
def WriteOp.remote (id size : Nat) : WriteOp :=
  .writeRemoteObject
    (some
      { id := id
        asRemote := true
        behavior := 0
        marshalling := (Writer.buffer (some fun _ => 0) size).exec >>= pure })
    fun x hx => by
      rw [← Option.some.inj hx]
      exact .write _ .ret

omit [Target] in
theorem rewindWrite_undoes_object :
    letI := Target.checked
    let p := written 0 ampleHeap [.remote 1 24, .write (.scalar .int32 7)]
    p.offsets = [0] ∧ p.dataSize = 28 ∧ ((rewindWrite 24).run p).2.offsets = [0] ∧
      ((rewindWrite 23).run p).2.offsets = [] ∧
      SameFuture (undoneTo p [.remote 2 24, .write (.cString none)]) p := by
  let _ := Target.checked
  have hoffsets : (written 0 ampleHeap [.remote 1 24, .write (.scalar .int32 7)]).offsets = [0] := by
    decide +kernel
  have hsize : (written 0 ampleHeap [.remote 1 24, .write (.scalar .int32 7)]).dataSize = 28 := by
    decide +kernel
  have hheap : ∀ i, (ampleHeap i).isSome = true := fun _ => rfl
  obtain ⟨hback, hfuture⟩ := rewindWrite_undoes rfl (by decide) 0 hheap
    [.remote 1 24, .write (.scalar .int32 7)] [.remote 2 24, .write (.cString none)]
  have hsorted : [0].Pairwise (· < ·) := List.pairwise_singleton _ _
  have hkept := (hback (hoffsets ▸ hsorted) 24 (by rw [hsize]; decide)).2.2.2
  have hdropped := (hback (hoffsets ▸ hsorted) 23 (by rw [hsize]; decide)).2.2.2
  refine ⟨hoffsets, hsize, hkept.trans ?_, hdropped.trans ?_, hfuture ?_⟩
  · rw [hoffsets]
    decide
  · rw [hoffsets]
    decide
  · rw [hoffsets, hsize]
    decide

omit [Target] in
/-- An object that writes four bytes is dropped at their end. And a parcel that went back to its
start has a block, which a read of no bytes shows. -/
theorem rewindWrite_shows :
    letI := Target.checked
    let number : WriteOp := .write (.scalar .int32 7)
    let p := written 0 ampleHeap [.remote 1 4]
    let p₀ := written 0 ampleHeap []
    ((writeAll [.remote 1 4, number]).run (Parcel.new 0 ampleHeap)).1 = [true, true] ∧
      p.offsets = [0] ∧ (undoneTo p [number]).offsets = [] ∧
      ((rewindRead 0 >>= fun _ => readBuffer 0).run p₀).1 = none ∧
      ((rewindRead 0 >>= fun _ => readBuffer 0).run (undoneTo p₀ [number])).1 = some [] := by
  decide +kernel

end CUtils
