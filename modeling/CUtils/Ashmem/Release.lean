import CUtils.Ashmem.Model

/-!
# Giving mappings and the descriptor back

The object knows one address and one length. Whoever maps it a second time makes it forget the
first mapping, and `CloseAshmem` makes it forget the mapping it has, so these are never given back.
What is held of the kernel is therefore the current mapping and whatever has been forgotten
(`Holds`); a step adds the current mapping to the forgotten ones exactly if it is careless
(`step_holds`), and the destructor gives back the current one only.

`released_iff` says of every run when nothing is left behind.
-/

namespace CUtils.Ashmems

open ByteMemory Resource StateRun

/-- The mapping the object knows about. -/
def Ashmem.current (s : Ashmem) : List Region :=
  s.startAddr.toList.map fun addr => ⟨addr, sizeArg s.memorySize⟩

/-- What is mapped: the current mapping, and `lost`. -/
def Holds (lost : List Region) (s : Ashmem) : Prop := held s.mappings = some (s.current ++ lost)

/-- The call does not make the object forget a mapping: nothing is mapped while there is a mapping,
and the object is not closed while there is one. -/
def Careful (s : Ashmem) : Op → Prop
  | .mapAshmem _ answer | .mapReadAndWriteAshmem answer | .mapReadOnlyAshmem answer =>
      s.startAddr.isSome = true → mmap (sizeArg s.memorySize) s.memoryFd answer = none
  | .closeAshmem => s.startAddr = none
  | _ => True

instance (s : Ashmem) : (op : Op) → Decidable (Careful s op)
  | .mapAshmem _ _ | .mapReadAndWriteAshmem _ | .mapReadOnlyAshmem _ =>
      inferInstanceAs (Decidable (_ → _))
  | .closeAshmem => inferInstanceAs (Decidable (_ = _))
  | .unmapAshmem | .writeToAshmem _ _ _ _ | .readFromAshmem _ _ _ =>
      inferInstanceAs (Decidable True)

/-! ## Mappings -/

theorem current_eq_nil {s : Ashmem} : s.current = [] ↔ s.startAddr = none := by
  simp [Ashmem.current]

theorem mapAshmem_holds {s : Ashmem} {lost : List Region} (h : Holds lost s) (mapType : BitVec 32)
    (answer : Option Nat) :
    Holds (if s.startAddr.isSome = true → mmap (sizeArg s.memorySize) s.memoryFd answer = none
      then lost else s.current ++ lost) (s.mapAshmem mapType answer).2 := by
  rw [Ashmem.mapAshmem]
  cases hm : mmap (sizeArg s.memorySize) s.memoryFd answer with
  | none =>
      rw [if_pos fun _ => rfl]
      exact h
  | some addr =>
      have htake := held_take h ⟨addr, sizeArg s.memorySize⟩
      by_cases hs : s.startAddr = none
      · rw [if_pos (by simp [hs])]
        rw [current_eq_nil.2 hs, List.nil_append] at htake
        exact htake
      · rw [if_neg (by simpa [Option.isSome_iff_ne_none] using hs)]
        exact htake

theorem closeAshmem_holds {s : Ashmem} {lost : List Region} (h : Holds lost s) :
    Holds (s.current ++ lost) s.closeAshmem := by
  unfold Ashmem.closeAshmem
  split
  · exact h
  · exact h

theorem unmapAshmem_holds {s : Ashmem} {lost : List Region} (h : Holds lost s) :
    Holds lost s.unmapAshmem := by
  unfold Ashmem.unmapAshmem
  cases hs : s.startAddr with
  | none => exact h
  | some addr =>
      have hcur : s.current = [⟨addr, sizeArg s.memorySize⟩] := by simp [Ashmem.current, hs]
      rw [Holds, hcur] at h
      exact held_give h

theorem writeToAshmem_mappings (s : Ashmem) (data : Option Mem)
    (size offset protection : BitVec 32) :
    (s.writeToAshmem data size offset protection).2 =
      { s with content := (s.writeToAshmem data size offset protection).2.content } := by
  cases data with
  | none => rfl
  | some data =>
      simp only [Ashmem.writeToAshmem, Ashmem.memcpyS]
      split
      · rfl
      · split
        · rfl
        · split
          · rfl
          · rfl

/-- **One step**: the current mapping is forgotten exactly if the step is careless. -/
theorem step_holds {s : Ashmem} {lost : List Region} (h : Holds lost s) (op : Op) :
    Holds (if Careful s op then lost else s.current ++ lost) (s.step op) := by
  cases op with
  | mapAshmem mapType answer => exact mapAshmem_holds h mapType answer
  | mapReadAndWriteAshmem answer => exact mapAshmem_holds h _ answer
  | mapReadOnlyAshmem answer => exact mapAshmem_holds h _ answer
  | unmapAshmem => exact unmapAshmem_holds h
  | closeAshmem =>
      have hclose := closeAshmem_holds h
      by_cases hs : s.startAddr = none
      · rw [if_pos (show Careful s .closeAshmem from hs)]
        rwa [current_eq_nil.2 hs, List.nil_append] at hclose
      · rw [if_neg (show ¬ Careful s .closeAshmem from hs)]
        exact hclose
  | writeToAshmem data size offset protection =>
      have heq : s.step (.writeToAshmem data size offset protection) = { s with
          content := (s.step (.writeToAshmem data size offset protection)).content } :=
        writeToAshmem_mappings s data size offset protection
      rw [if_pos (show Careful s (.writeToAshmem data size offset protection) from trivial), heq]
      exact h
  | readFromAshmem size offset protection => exact h

/-- A careless step forgets a mapping that there was. -/
theorem current_ne_nil {s : Ashmem} {op : Op} (h : ¬ Careful s op) : s.current ≠ [] := by
  rw [Ne, current_eq_nil]
  intro hs
  cases op with
  | mapAshmem _ _ | mapReadAndWriteAshmem _ | mapReadOnlyAshmem _ =>
      exact h fun hsome => by simp [hs] at hsome
  | closeAshmem => exact h hs
  | _ => exact h trivial

/-- **A whole run**: nothing has been forgotten exactly if every step was careful. -/
theorem run_holds {s : Ashmem} {lost : List Region} (h : Holds lost s) (ops : List Op) :
    ∃ lost', Holds lost' (s.run ops) ∧ (lost' = [] ↔ lost = [] ∧ Along Careful Ashmem.step s ops) := by
  induction ops generalizing s lost with
  | nil => exact ⟨lost, h, by simp [Along]⟩
  | cons op ops ih =>
      obtain ⟨lost', hlost, hiff⟩ := ih (step_holds h op)
      refine ⟨lost', hlost, hiff.trans ?_⟩
      by_cases hc : Careful s op
      · simp [Along, hc]
      · simp [Along, hc, current_ne_nil hc]

theorem destroy_held {s : Ashmem} {lost : List Region} (h : Holds lost s) :
    held s.destroy.mappings = some lost := by
  have hclosed := closeAshmem_holds (unmapAshmem_holds h)
  have hunmapped : s.unmapAshmem.current = [] := by
    rw [current_eq_nil, Ashmem.unmapAshmem]
    cases hs : s.startAddr with
    | none => exact hs
    | some addr => rfl
  rw [hunmapped, List.nil_append] at hclosed
  have hnil : s.unmapAshmem.closeAshmem.current = [] := by
    rw [current_eq_nil]
    rfl
  rwa [Holds, hnil, List.nil_append] at hclosed

/-! ## The descriptor -/

/-- The descriptor has not been closed, or it has and is gone. -/
def Closes (fd : Int) (s : Ashmem) : Prop :=
  s.closed = [] ∧ s.memoryFd = fd ∨ s.closed = [fd] ∧ s.memoryFd = -1 ∧ 0 < fd

theorem closeAshmem_closes {s : Ashmem} {fd : Int} (h : Closes fd s) : Closes fd s.closeAshmem := by
  unfold Ashmem.closeAshmem
  rcases h with ⟨hnone, rfl⟩ | ⟨hone, hgone, hpos⟩
  · by_cases hfd : s.memoryFd > 0
    · rw [if_pos hfd]
      exact Or.inr ⟨by rw [hnone], rfl, hfd⟩
    · rw [if_neg hfd]
      exact Or.inl ⟨hnone, rfl⟩
  · rw [if_neg (by omega)]
    exact Or.inr ⟨hone, hgone, hpos⟩

theorem unmapAshmem_closes {s : Ashmem} {fd : Int} (h : Closes fd s) : Closes fd s.unmapAshmem := by
  unfold Ashmem.unmapAshmem
  cases s.startAddr with
  | none => exact h
  | some addr => exact h

theorem mapAshmem_closes {s : Ashmem} {fd : Int} (h : Closes fd s) (mapType : BitVec 32)
    (answer : Option Nat) : Closes fd (s.mapAshmem mapType answer).2 := by
  unfold Ashmem.mapAshmem
  cases mmap (sizeArg s.memorySize) s.memoryFd answer with
  | none => exact h
  | some addr => exact h

theorem step_closes {s : Ashmem} {fd : Int} (h : Closes fd s) (op : Op) : Closes fd (s.step op) := by
  cases op with
  | mapAshmem mapType answer => exact mapAshmem_closes h mapType answer
  | mapReadAndWriteAshmem answer => exact mapAshmem_closes h _ answer
  | mapReadOnlyAshmem answer => exact mapAshmem_closes h _ answer
  | unmapAshmem => exact unmapAshmem_closes h
  | closeAshmem => exact closeAshmem_closes h
  | writeToAshmem data size offset protection =>
      have heq : s.step (.writeToAshmem data size offset protection) = { s with
          content := (s.step (.writeToAshmem data size offset protection)).content } :=
        writeToAshmem_mappings s data size offset protection
      rw [heq]
      exact h
  | readFromAshmem size offset protection => exact h

theorem run_closes {s : Ashmem} {fd : Int} (h : Closes fd s) (ops : List Op) :
    Closes fd (s.run ops) := by
  induction ops generalizing s with
  | nil => exact h
  | cons op ops ih => exact ih (step_closes h op)

/-- The destructor leaves the descriptor closed, unless it is zero or none at all. -/
theorem destroy_closed {s : Ashmem} {fd : Int} (h : Closes fd s) :
    s.destroy.closed = [fd] ↔ 0 < fd := by
  have hlast : s.destroy.memoryFd ≤ 0 := by
    unfold Ashmem.destroy Ashmem.closeAshmem
    by_cases hfd : s.unmapAshmem.memoryFd > 0
    · rw [if_pos hfd]
      exact (by decide : (-1 : Int) ≤ 0)
    · rw [if_neg hfd]
      exact not_lt.1 hfd
  rcases closeAshmem_closes (unmapAshmem_closes h) with ⟨hnone, hfd⟩ | ⟨hone, -, hpos⟩
  · rw [show s.destroy.closed = [] from hnone]
    rw [show s.destroy.memoryFd = fd from hfd] at hlast
    simpa using hlast
  · exact ⟨fun _ => hpos, fun _ => hone⟩

/-! ## Release -/

/-- Every mapping has been given back once, with its address and length, and the descriptor has
been closed once. -/
def Released (fd : Int) (s : Ashmem) : Prop := Settled s.mappings ∧ s.closed = [fd]

instance (fd : Int) (s : Ashmem) : Decidable (Released fd s) := inferInstanceAs (Decidable (_ ∧ _))

/-- **What a run leaves behind.** After the object is destroyed everything is released if and only
if the descriptor is positive and no step of the run mapped or closed the object while it was
mapped. -/
theorem released_iff (fd : Int) (size : BitVec 32) (ops : List Op) :
    Released fd ((Ashmem.new fd size).run ops).destroy ↔
      0 < fd ∧ Along Careful Ashmem.step (Ashmem.new fd size) ops := by
  have hstart : Holds [] (Ashmem.new fd size) := rfl
  obtain ⟨lost, hlost, hiff⟩ := run_holds hstart ops
  have hclosed := destroy_closed (run_closes (Or.inl ⟨rfl, rfl⟩ : Closes fd (Ashmem.new fd size)) ops)
  rw [Released, Settled, destroy_held hlost, Option.some.injEq, hiff, hclosed]
  simp [and_comm]

/-- A second mapping: the first is never given back. -/
theorem second_mapping_leaks :
    ¬ Released 3 ((Ashmem.new 3 4096).run
      [.mapReadAndWriteAshmem (some 0x10000), .mapReadOnlyAshmem (some 0x20000)]).destroy := by
  decide +kernel

end CUtils.Ashmems
