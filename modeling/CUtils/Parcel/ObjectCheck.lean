import CUtils.Parcel.Invariant

/-!
# The object check over whole runs

`ValidateReadData` looks at the offset table from a cached index on only. While the recorded
offsets ascend, that is as good as looking at all of them: the objects below the index end at or
before the read cursor in every state of a run (`Cached`), so they cannot meet the range.

`objects_not_handed_out` says so of every state a run reaches, and of every reader called there.
-/

namespace CUtils

open StateRun ByteMemory Parcel

variable [Target]

/-- No recorded object has a byte in `[readCursor_, u)`: what a scan of the whole table finds. -/
def Parcel.Clear (p : Parcel) (u : Nat) : Prop :=
  ∀ o ∈ p.offsets, ¬ (o < u ∧ p.readCursor < o + flatSize)

/-- With the invariant the cached scan answers as a full one. -/
theorem scan_isSome_iff {p : Parcel} (hp : Sound p) (ho : Ordered p) (hc : Cached p) (u : Nat) :
    (p.scan u).isSome = true ↔ p.Clear u := by
  constructor
  · intro h o hmem
    obtain ⟨j, hj⟩ := Option.isSome_iff_exists.1 h
    have hscan := scanned hp hj
    rw [← List.take_append_drop j p.offsets] at hmem
    rcases List.mem_append.1 hmem with hmem | hmem
    · have := hscan.behind hc o hmem
      omega
    · have := hscan.ahead ho o hmem
      omega
  · intro hclear
    by_contra hnone
    rw [Bool.not_eq_true, Option.isSome_eq_false_iff, Option.isNone_iff_eq_none, Parcel.scan,
      if_pos ho.check] at hnone
    obtain ⟨o, hmem, hmeet⟩ := scanObjects_none
      (fun o hmem => hp.offsets_le o (List.mem_of_mem_drop hmem)) hnone
    exact hclear o (List.mem_of_mem_drop hmem) hmeet

theorem validateReadData_iff {p : Parcel} (hp : Sound p) (ho : Ordered p) (hc : Cached p) (u : Nat) :
    ((validateReadData u).run p).1 = true ↔ p.Clear u := by
  rw [← scan_isSome_iff hp ho hc, run_validateReadData]
  cases p.scan u <;> simp

/-- A step of a run in which offsets are recorded in ascending order. -/
def Ascends (p : Parcel) (op : Op) : Prop :=
  ¬ op.SetsSize ∧ (p.step op).offsets.Pairwise (· < ·)

/-- **Object bytes are not handed out as data.** In every state of a run that records offsets in
ascending order, the check accepts a range exactly if no recorded object has a byte in it, and
what a basic reader hands out lies outside every recorded object. -/
theorem objects_not_handed_out (hcheck : Target.objectCheck = true) (allocator : Nat)
    (heap : Nat → Option Mem) (ops : List Op)
    (h : Along Ascends Parcel.step (Parcel.new allocator heap) ops) :
    let p := (Parcel.new allocator heap).run ops
    (∀ u > p.readCursor, ((validateReadData u).run p).1 = true ↔
      ∀ o ∈ p.offsets, ¬ (o < u ∧ p.readCursor < o + flatSize)) ∧
    ∀ {α : Type} {m : ParcelM α}, BasicReader m →
      ∃ new, (m.run p).2.log = new ++ p.log ∧ ∀ a ∈ new, a.Avoids p.offsets := by
  have hrun : Sound ((Parcel.new allocator heap).run ops) ∧
      Ordered ((Parcel.new allocator heap).run ops) ∧ Cached ((Parcel.new allocator heap).run ops) := by
    have hstart : Ordered (Parcel.new allocator heap) ∧ Cached (Parcel.new allocator heap) :=
      ⟨⟨hcheck, List.Pairwise.nil⟩, fun o ho => absurd ho (by simp [Parcel.new])⟩
    refine Along.invariant (I := fun p => Sound p ∧ Ordered p ∧ Cached p) (fun p op hop hI => ?_) h
      ⟨Sound.new allocator heap, hstart⟩
    have hstep := steady_step hI.1 hop.1
    have hord : Ordered (p.step op) := ⟨hcheck, hop.2⟩
    exact ⟨hstep.sound, hord, hstep.cached hord hI.2.2⟩
  obtain ⟨hp, ho, hc⟩ := hrun
  refine ⟨fun u _ => validateReadData_iff hp ho hc u, fun hm => ?_⟩
  obtain ⟨new, hlog, hnew⟩ := (hm.reads _ hp).log
  exact ⟨new, hlog, fun a ha => (hnew a ha).2.2 rfl ho hc⟩

omit [Target] in
theorem objects_not_handed_out_between :
    letI := Target.checked
    let ops : List Op := [.writeRemoteObject (.flat 1 0), .write (.scalar .int32 7),
      .writeRemoteObject (.flat 2 0), .rewindRead 24]
    Along Ascends Parcel.step (Parcel.new 0 ampleHeap) ops ∧
      ((Parcel.new 0 ampleHeap).run ops).offsets = [0, 28] ∧
      ((validateReadData 28).run ((Parcel.new 0 ampleHeap).run ops)).1 = true ∧
      ((validateReadData 29).run ((Parcel.new 0 ampleHeap).run ops)).1 = false := by
  let _ := Target.checked
  have h : Along Ascends Parcel.step (Parcel.new 0 ampleHeap)
      [.writeRemoteObject (.flat 1 0), .write (.scalar .int32 7),
        .writeRemoteObject (.flat 2 0), .rewindRead 24] := by
    refine ⟨⟨id, ?_⟩, ⟨id, ?_⟩, ⟨id, ?_⟩, ⟨id, ?_⟩, trivial⟩ <;> decide +kernel
  have hall := (objects_not_handed_out rfl 0 ampleHeap _ h).1
  refine ⟨h, by decide +kernel, (hall 28 (by decide +kernel)).2 (by decide +kernel), ?_⟩
  rw [Bool.eq_false_iff]
  exact fun hok => (by decide +kernel : ¬ _) ((hall 29 (by decide +kernel)).1 hok)

end CUtils
