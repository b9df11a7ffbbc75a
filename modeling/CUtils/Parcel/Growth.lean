import CUtils.Parcel.Capacity
import CUtils.Parcel.Reached

/-!
# How a block grows

`CalcNewCapacity` computes with `size_t`, and nothing in it says that the numbers fit. `calcChecked`
is the same computation with every operation checked; where it has a value, `CalcNewCapacity` has
that value (`calcNewCapacity_of_checked`), and then no number has wrapped around and the loop has
come to its end. It has a value for every size and every limit that `SetMaxCapacity` can leave,
since the limit starts at 200K, which is more than the threshold, and is never lowered.

A request is refused because of the limit only when the block has to grow for it. A block that
`SetDataCapacity` has made larger than the limit is filled to its end
(`ensureWritableCapacity_past_limit`).
-/

namespace CUtils

open StateRun ByteMemory Parcel

/-! ## The computation, checked -/

/-- The doubling loop, unless a product wraps around or the loop goes on after `fuel` rounds. -/
def doubleLoopChecked : Nat → Nat → Nat → Option Nat
  | 0, newCapacity, minNewCapacity =>
      if newCapacity < minNewCapacity then none else some newCapacity
  | fuel + 1, newCapacity, minNewCapacity =>
      if newCapacity < minNewCapacity then
        (checkedMul newCapacity 2).bind fun doubled => doubleLoopChecked fuel doubled minNewCapacity
      else some newCapacity

/-- `CalcNewCapacity`, unless an operation in it wraps around. -/
def calcChecked (maxDataCapacity minNewCapacity : Nat) : Option Nat :=
  let threshold := capacityThreshold
  if minNewCapacity = threshold then some threshold
  else if minNewCapacity > threshold then
    (checkedMul (minNewCapacity / threshold) threshold).bind fun newCapacity =>
      if maxDataCapacity > 0 then
        (checkedSub maxDataCapacity threshold).bind fun last =>
          if newCapacity > last then some maxDataCapacity else checkedAdd newCapacity threshold
      else checkedAdd newCapacity threshold
  else
    (doubleLoopChecked 64 64 minNewCapacity).bind fun newCapacity =>
      if maxDataCapacity > 0 ∧ newCapacity > maxDataCapacity then some maxDataCapacity
      else some newCapacity

theorem doubleLoop_of_checked {fuel c m r : Nat} (h : doubleLoopChecked fuel c m = some r) :
    doubleLoop fuel c m = r := by
  induction fuel generalizing c with
  | zero =>
      obtain ⟨-, hr⟩ := Option.ite_none_left_eq_some.1 h
      exact Option.some.inj hr
  | succ fuel ih =>
      rw [doubleLoopChecked] at h
      rw [doubleLoop]
      by_cases hlt : c < m
      · rw [if_pos hlt] at h ⊢
        obtain ⟨doubled, hdouble, hrest⟩ := Option.bind_eq_some_iff.1 h
        rw [szMul_of_checked hdouble]
        exact ih hrest
      · rw [if_neg hlt] at h ⊢
        exact Option.some.inj h

theorem calcNewCapacity_of_checked {max m c : Nat} (h : calcChecked max m = some c) :
    calcNewCapacity max m = c := by
  rw [calcChecked] at h
  rw [calcNewCapacity]
  by_cases heq : m = capacityThreshold
  · rw [if_pos heq] at h ⊢
    exact Option.some.inj h
  · rw [if_neg heq] at h ⊢
    by_cases hgt : m > capacityThreshold
    · rw [if_pos hgt] at h ⊢
      obtain ⟨newCapacity, hmul, hrest⟩ := Option.bind_eq_some_iff.1 h
      obtain ⟨-, hmul⟩ := Option.ite_none_right_eq_some.1 hmul
      dsimp only
      rw [Option.some.inj hmul]
      by_cases hmax : max > 0
      · rw [if_pos hmax] at hrest
        obtain ⟨last, hsub, hrest⟩ := Option.bind_eq_some_iff.1 hrest
        rw [szSub_of_checked hsub]
        by_cases hlast : newCapacity > last
        · rw [if_pos hlast] at hrest
          rw [if_pos ⟨hmax, hlast⟩]
          exact Option.some.inj hrest
        · rw [if_neg hlast] at hrest
          rw [if_neg fun h => hlast h.2]
          exact szAdd_of_checked hrest
      · rw [if_neg hmax] at hrest
        rw [if_neg fun h => hmax h.1]
        exact szAdd_of_checked hrest
    · rw [if_neg hgt] at h ⊢
      obtain ⟨newCapacity, hloop, hrest⟩ := Option.bind_eq_some_iff.1 h
      dsimp only
      rw [doubleLoop_of_checked hloop]
      split at hrest
      · rename_i hover
        rw [if_pos hover]
        exact Option.some.inj hrest
      · rename_i hover
        rw [if_neg hover]
        exact Option.some.inj hrest

/-! ## The three regimes -/

/-- Doubling from `64 * 2 ^ k` stops at the first power that is large enough. -/
theorem doubleLoopChecked_spec {m : Nat} (hm : m ≤ 4096) {fuel k : Nat} (hk : k ≤ 6)
    (hfuel : 6 ≤ fuel + k) :
    ∃ j ≤ 6, doubleLoopChecked fuel (64 * 2 ^ k) m = some (64 * 2 ^ j) ∧ m ≤ 64 * 2 ^ j ∧
      (j = k ∨ ∃ i, j = i + 1 ∧ 64 * 2 ^ i < m) := by
  induction fuel generalizing k with
  | zero =>
      have hk6 : k = 6 := by omega
      subst hk6
      exact ⟨6, le_rfl, if_neg (by omega), by omega, Or.inl rfl⟩
  | succ fuel ih =>
      rw [doubleLoopChecked]
      by_cases hlt : 64 * 2 ^ k < m
      · rw [if_pos hlt]
        have hk5 : k + 1 ≤ 6 := by
          by_contra hk6
          have hk6 : k = 6 := by omega
          subst hk6
          omega
        have hdouble : checkedMul (64 * 2 ^ k) 2 = some (64 * 2 ^ (k + 1)) := by
          rw [checkedMul, if_pos (by simp only [sizeLimit]; omega), Nat.pow_succ, Nat.mul_assoc]
        rw [hdouble, Option.bind_some]
        obtain ⟨j, hj, hrun, hge, hmin⟩ := ih hk5 (by omega)
        refine ⟨j, hj, hrun, hge, Or.inr ?_⟩
        rcases hmin with rfl | hmin
        · exact ⟨k, rfl, hlt⟩
        · exact hmin
      · rw [if_neg hlt]
        exact ⟨k, hk, rfl, by omega, Or.inl rfl⟩

section Regimes

variable {max m : Nat}

/-- Below the threshold the capacity is a power of two. -/
theorem calcChecked_small (hmax : defaultCapacity ≤ max) (hm : m < 4096) :
    ∃ j ≤ 6, calcChecked max m = some (64 * 2 ^ j) ∧ 64 * 2 ^ j ≤ 4096 ∧ m ≤ 64 * 2 ^ j ∧
      (j = 0 ∨ ∃ i, j = i + 1 ∧ 64 * 2 ^ i < m) := by
  obtain ⟨j, hj, hrun, hge, hmin⟩ :=
    doubleLoopChecked_spec (show m ≤ 4096 by omega) (show 0 ≤ 6 by omega) (show 6 ≤ 64 + 0 by omega)
  have hle : 64 * 2 ^ j ≤ 4096 := by
    have := Nat.pow_le_pow_right (n := 2) (by decide) hj
    omega
  refine ⟨j, hj, ?_, hle, hge, hmin⟩
  rw [Nat.pow_zero, Nat.mul_one] at hrun
  simp only [defaultCapacity] at hmax
  rw [calcChecked, if_neg (by simp only [capacityThreshold]; omega),
    if_neg (by simp only [capacityThreshold]; omega), hrun, Option.bind_some, if_neg (by omega)]

theorem calcChecked_threshold (max : Nat) : calcChecked max 4096 = some 4096 := by
  rw [calcChecked, if_pos (show 4096 = capacityThreshold from rfl)]
  rfl

/-- Above it, the next multiple of it that is larger, unless that is past the limit. -/
theorem calcChecked_above (hmax : defaultCapacity ≤ max) (hlt : max < sizeLimit) (hm : 4096 < m)
    (hlim : m < sizeLimit) :
    calcChecked max m =
      some (if m / 4096 * 4096 > max - 4096 then max else m / 4096 * 4096 + 4096) := by
  simp only [defaultCapacity] at hmax
  have hmul : checkedMul (m / 4096) 4096 = some (m / 4096 * 4096) :=
    if_pos (Nat.lt_of_le_of_lt (Nat.div_mul_le_self m 4096) hlim)
  have hsub : checkedSub max 4096 = some (max - 4096) := if_pos (by omega)
  rw [calcChecked, if_neg (by simp only [capacityThreshold]; omega),
    if_pos (by simp only [capacityThreshold]; omega)]
  dsimp only [capacityThreshold]
  rw [hmul, Option.bind_some, if_pos (by omega), hsub, Option.bind_some]
  split
  · rfl
  · exact if_pos (by omega)

end Regimes

/-! ## What it computes -/

/-- `CalcNewCapacity` does in `size_t` what it does in the natural numbers, and the block is as large
as it has to be, within the limit. -/
structure CalcExact (maxDataCapacity minNewCapacity : Nat) : Prop where
  checked : calcChecked maxDataCapacity minNewCapacity =
    some (calcNewCapacity maxDataCapacity minNewCapacity)
  le_max : calcNewCapacity maxDataCapacity minNewCapacity ≤ maxDataCapacity
  covers : minNewCapacity ≤ calcNewCapacity maxDataCapacity minNewCapacity ↔
    minNewCapacity ≤ maxDataCapacity

theorem calcExact_of_checked {max m c : Nat} (h : calcChecked max m = some c) (hle : c ≤ max)
    (hcovers : m ≤ max → m ≤ c) : CalcExact max m := by
  have heq := calcNewCapacity_of_checked h
  exact ⟨by rw [h, heq], by rw [heq]; exact hle, by
    rw [heq]
    exact ⟨fun hm => hm.trans hle, hcovers⟩⟩

theorem calcExact {max m : Nat} (hmax : defaultCapacity ≤ max) (hlt : max < sizeLimit)
    (hm : m < sizeLimit) : CalcExact max m := by
  have hbig : 4096 ≤ max := by
    simp only [defaultCapacity] at hmax
    omega
  rcases Nat.lt_trichotomy m 4096 with hsmall | rfl | habove
  · obtain ⟨j, -, hrun, hle, hge, -⟩ := calcChecked_small hmax hsmall
    exact calcExact_of_checked hrun (hle.trans hbig) fun _ => hge
  · exact calcExact_of_checked (calcChecked_threshold max) hbig fun _ => le_rfl
  · have hrun := calcChecked_above hmax hlt habove hm
    split at hrun
    · exact calcExact_of_checked hrun le_rfl id
    · exact calcExact_of_checked hrun (by omega) fun _ => by omega

/-! ## What is granted -/

/-- What decides a request for `n` more bytes. -/
structure Decided (p : Parcel) (n : Nat) : Prop where
  readOnly : p.writable = false → ((ensureWritableCapacity n).run p).1 = false
  /-- Nothing has to grow. -/
  room : p.writable = true → n ≤ p.getWritableBytes →
    ((ensureWritableCapacity n).run p).1 = p.data.isSome ∧ (0 < n → p.data.isSome = true)
  /-- The block has to grow, the sum does not wrap around, and the allocation succeeds. -/
  grows : p.writable = true → ¬ n ≤ p.getWritableBytes → n + p.writeCursor < sizeLimit →
    (p.grant (p.newCapacity n)).isSome = true →
    (((ensureWritableCapacity n).run p).1 = false ↔ p.maxDataCapacity < n + p.writeCursor)

theorem Equipped.decided {p : Parcel} (hp : Equipped p) (n : Nat) : Decided p n where
  readOnly hw := by rw [run_ensureWritableCapacity, if_pos hw]
  room hw hroom := by
    refine ⟨by rw [ensure_room hw hroom], fun hpos => ?_⟩
    by_contra hd
    have hnull := hp.null (by simpa using hd)
    have hfits := le_getWritableBytes.1 hroom
    omega
  grows hw hroom hlt hgrant := by
    have hexact := calcExact hp.max_ge hp.max_lt hlt
    have hnew : p.newCapacity n = calcNewCapacity p.maxDataCapacity (n + p.writeCursor) := by
      rw [Parcel.newCapacity, szAdd_of_lt hlt]
    have hfull : p.dataCapacity < n + p.writeCursor := by
      have := mt le_getWritableBytes.2 hroom
      omega
    by_cases hgrows : p.Grows n
    · obtain ⟨fresh, hrun⟩ := ensure_grows hroom hgrows
      have hge := hgrows.2.2.1
      rw [szAdd_of_lt hlt, hnew, hexact.covers] at hge
      rw [hrun]
      exact iff_of_false (by simp) (Nat.not_lt.2 hge)
    · obtain ⟨heap, blocks, hrun⟩ := ensure_refused hroom hgrows
      rw [hrun]
      refine iff_of_true rfl (Nat.lt_of_not_le fun hle => hgrows ?_)
      have hge := hexact.covers.2 hle
      rw [← hnew] at hge
      exact ⟨hw, by omega, by rw [szAdd_of_lt hlt]; exact hge, hp.installed, hgrant⟩

variable [Target]

/-- **`CalcNewCapacity` is exact**, for every limit a parcel can come to have and every size. When the
block has to grow, `EnsureWritableCapacity` fails exactly if the data would end past the limit. -/
theorem calcNewCapacity_exact {p : Parcel} (hp : p.Reached) :
    (∀ m < sizeLimit, CalcExact p.maxDataCapacity m) ∧ ∀ n, Decided p n :=
  ⟨fun _ hm => calcExact hp.equipped.max_ge hp.equipped.max_lt hm, fun n => hp.equipped.decided n⟩

omit [Target] in
/-- A limit that is not a multiple of the threshold, and a request up to the last byte of it. -/
theorem calcNewCapacity_exact_raised :
    letI := Target.checked
    let p := (Parcel.new 0 ampleHeap).run [.setMaxCapacity 204801, .write (.scalar .int8Unaligned 7)]
    (∀ m < sizeLimit, CalcExact p.maxDataCapacity m) ∧ ∀ n, Decided p n := by
  let _ := Target.checked
  exact calcNewCapacity_exact ((Reached.new 0 ampleHeap).run _)

omit [Target] in
/-- **A request past the limit that is granted.** The block has been made larger than the limit. -/
theorem ensureWritableCapacity_past_limit :
    letI := Target.checked
    let p := (Parcel.new 0 ampleHeap).run [.setDataCapacity 300000]
    p.Reached ∧ p.writable = true ∧ 250000 + p.writeCursor < sizeLimit ∧
      (p.grant (p.newCapacity 250000)).isSome = true ∧
      ¬ (((ensureWritableCapacity 250000).run p).1 = false ↔
        p.maxDataCapacity < 250000 + p.writeCursor) := by
  let _ := Target.checked
  refine ⟨(Reached.new 0 ampleHeap).run _, ?_⟩
  decide +kernel

end CUtils
