import CUtils.Parcel.Growth
import CUtils.Parcel.Pieces

/-!
# Room without failing allocations

When allocations succeed and the block has only been grown by the parcel itself, a request is
decided by where it would end: it is granted exactly if that is not past the limit
(`Room.ensure_ample`). The size of the block has no say in it. A block that is larger than it has to
be is a block some other request would have led to, and so neither a granted request nor one that
wraps around finds out about it.
-/

namespace CUtils

open StateRun ByteMemory Parcel

/-! ## Sizes of blocks -/

/-- A size to which the parcel grows its block: no request within the block asks for more. -/
structure Regular (c : Nat) : Prop where
  le : c ≤ defaultCapacity
  covers : ∀ m < c, calcNewCapacity defaultCapacity m ≤ c

theorem Regular.zero : Regular 0 := ⟨by decide, fun m hm => absurd hm (Nat.not_lt_zero m)⟩

theorem defaultCapacity_lt : defaultCapacity < sizeLimit := by decide

/-- Up to the threshold the capacity is a power of two. -/
theorem calcNewCapacity_small {m : Nat} (hm : m < 4096) :
    ∃ j ≤ 6, calcNewCapacity defaultCapacity m = 64 * 2 ^ j ∧ 64 * 2 ^ j ≤ 4096 ∧ m ≤ 64 * 2 ^ j ∧
      (j = 0 ∨ ∃ i, j = i + 1 ∧ 64 * 2 ^ i < m) := by
  obtain ⟨j, hj, hrun, hrest⟩ := calcChecked_small le_rfl hm
  exact ⟨j, hj, calcNewCapacity_of_checked hrun, hrest⟩

/-- Above the threshold it is a multiple of it. -/
theorem calcNewCapacity_large {m : Nat} (hm : 4096 ≤ m) (hle : m ≤ defaultCapacity) :
    ∃ n, calcNewCapacity defaultCapacity m = 4096 * n ∧ n ≤ 50 ∧ m ≤ 4096 * n ∧
      (m < 4096 * n → n = m / 4096 + 1) := by
  simp only [defaultCapacity] at hle
  by_cases heq : m = 4096
  · subst heq
    have hrun := calcNewCapacity_of_checked (calcChecked_threshold defaultCapacity)
    exact ⟨1, hrun, by omega, by omega, fun h => by omega⟩
  · have hrun := calcNewCapacity_of_checked (calcChecked_above le_rfl defaultCapacity_lt
      (show 4096 < m by omega) (by simp only [sizeLimit]; omega))
    rw [hrun]
    by_cases hbig : m / 4096 * 4096 > defaultCapacity - 4096
    · rw [if_pos hbig]
      simp only [defaultCapacity] at hbig
      exact ⟨50, rfl, by omega, by omega, fun h => by omega⟩
    · rw [if_neg hbig]
      simp only [defaultCapacity] at hbig
      exact ⟨m / 4096 + 1, by omega, by omega, by omega, fun _ => rfl⟩

/-- A request that ends within the limit is given a regular block that holds it. -/
theorem calcNewCapacity_regular {m : Nat} (hm : m ≤ defaultCapacity) :
    m ≤ calcNewCapacity defaultCapacity m ∧ Regular (calcNewCapacity defaultCapacity m) := by
  by_cases hsmall : m < 4096
  · obtain ⟨j, hj, hrun, hle, hge, -⟩ := calcNewCapacity_small hsmall
    refine ⟨by omega, ?_⟩
    rw [hrun]
    refine ⟨by simp only [defaultCapacity]; omega, fun m' hm' => ?_⟩
    obtain ⟨j', hj', hrun', -, -, hmin⟩ := calcNewCapacity_small (m := m') (by omega)
    rw [hrun']
    have hjj : j' ≤ j := by
      rcases hmin with rfl | ⟨i, rfl, hi⟩
      · exact Nat.zero_le _
      · -- the power before `64 * 2 ^ j'` is below `m'`, hence below `64 * 2 ^ j`
        have hlt : 2 ^ i < 2 ^ j := by omega
        exact (Nat.pow_lt_pow_iff_right (by decide)).1 hlt
    exact Nat.mul_le_mul_left _ (Nat.pow_le_pow_right (by decide) hjj)
  · obtain ⟨n, hrun, hn, hge, -⟩ := calcNewCapacity_large (by omega) hm
    refine ⟨by omega, ?_⟩
    rw [hrun]
    refine ⟨by simp only [defaultCapacity]; omega, fun m' hm' => ?_⟩
    by_cases hsmall' : m' < 4096
    · obtain ⟨j', -, hrun', hle', -⟩ := calcNewCapacity_small hsmall'
      omega
    · obtain ⟨n', hrun', -, hge', hceil⟩ :=
        calcNewCapacity_large (m := m') (by omega) (by simp only [defaultCapacity]; omega)
      rw [hrun']
      by_cases hlt : m' < 4096 * n'
      · rw [hceil hlt]
        omega
      · omega

/-- A request that ends past the limit is not given a block that holds it. -/
theorem calcNewCapacity_over {m : Nat} (hm : defaultCapacity < m) (hlim : m < sizeLimit) :
    calcNewCapacity defaultCapacity m < m := by
  have hcovers := (calcExact le_rfl defaultCapacity_lt hlim).covers
  omega

/-! ## Requests -/

/-- Allocations succeed, and the block has been grown by the parcel. -/
structure Room.Ample (r : Room) : Prop where
  writable : r.writable = true
  allocator : r.allocator = true
  heap : ∀ i, r.heap i = true
  max : r.maxCapacity = defaultCapacity
  regular : Regular r.capacity
  cursor_le : r.cursor ≤ r.capacity
  present : 0 < r.capacity → r.present = true

theorem Room.le_free {r : Room} (h : r.Ample) {n : Nat} :
    n ≤ r.free ↔ r.cursor + n ≤ r.capacity := by
  have := h.cursor_le
  rw [Room.free]
  split <;> omega

/-- **A request is decided by where it ends.** -/
theorem Room.ensure_ample {r : Room} (h : r.Ample) {n : Nat} (hn : n < sizeLimit)
    (hpos : 0 < n ∨ 0 < r.cursor) :
    (n + r.cursor ≤ defaultCapacity →
      (r.ensure n).1 = true ∧ (r.ensure n).2.Ample ∧ (r.ensure n).2.cursor = r.cursor ∧
        n ≤ (r.ensure n).2.free) ∧
      (defaultCapacity < n + r.cursor → r.ensure n = (false, r)) := by
  have hcur := h.cursor_le
  have hreg := h.regular.le
  have hlim : defaultCapacity < ptrdiffMax ∧ ptrdiffMax < sizeLimit := by decide
  rw [Room.ensure, if_neg (by simp [h.writable])]
  by_cases hroom : n ≤ r.free
  · have hfits := (Room.le_free h).1 hroom
    rw [if_pos hroom]
    refine ⟨fun _ => ⟨h.present (by omega), h, rfl, hroom⟩, fun hover => absurd hover (by omega)⟩
  · have hnot : r.capacity < r.cursor + n :=
      Nat.lt_of_not_le fun hle => hroom ((Room.le_free h).2 hle)
    rw [if_neg hroom, h.max]
    dsimp only
    constructor
    · intro hle
      obtain ⟨hge, hregular⟩ := calcNewCapacity_regular hle
      rw [szAdd_of_lt (by omega)]
      have hcap := hregular.le
      have hno : ¬ (calcNewCapacity defaultCapacity (n + r.cursor) ≤ r.capacity ∨
          calcNewCapacity defaultCapacity (n + r.cursor) < n + r.cursor ∨ r.allocator = false) := by
        rw [h.allocator]
        simp only [Bool.true_eq_false, or_false]
        omega
      rw [if_neg hno, if_pos ⟨by omega, h.heap 0⟩]
      have hample : Room.Ample
          { r with
            capacity := calcNewCapacity defaultCapacity (n + r.cursor)
            maxCapacity := defaultCapacity, present := true
            heap := fun i => r.heap (i + 1) } :=
        ⟨h.writable, h.allocator, fun i => h.heap (i + 1), rfl, hregular, by
          show r.cursor ≤ calcNewCapacity defaultCapacity (n + r.cursor)
          omega, fun _ => rfl⟩
      refine ⟨rfl, hample, rfl, (Room.le_free hample).2 ?_⟩
      show r.cursor + n ≤ calcNewCapacity defaultCapacity (n + r.cursor)
      omega
    · intro hover
      by_cases hwrap : n + r.cursor < sizeLimit
      · rw [szAdd_of_lt hwrap]
        have := calcNewCapacity_over hover hwrap
        rw [if_pos (by omega)]
      · -- the sum wraps around to something below the cursor
        have hsum : szAdd n r.cursor < r.cursor := by
          unfold szAdd
          rw [Nat.mod_eq_sub_mod (by omega), Nat.mod_eq_of_lt (by omega)]
          omega
        have := h.regular.covers _ (Nat.lt_of_lt_of_le hsum hcur)
        rw [if_pos (Or.inl this)]

variable [Target]

/-- The request is for what is copied and appended, and asks for nothing only behind some data. -/
def Need.Modest (c : Nat) : Need → Prop
  | refused => True
  | room request copied size =>
      request < sizeLimit ∧ (∀ k ∈ copied, k ≤ request ∧ 0 < request) ∧ size ≤ request ∧
        (0 < request ∨ 0 < c)

/-- The need is met when the data ends at `cursor`. -/
def Need.met (cursor : Nat) : Need → Bool
  | refused => false
  | room request _ _ => request + cursor ≤ defaultCapacity

theorem Room.take_ample (hmem : defaultCapacity ≤ Target.memMaxLen) {r : Room} (h : r.Ample)
    {need : Need} {c : Nat} (hneed : need.Modest c) (hc : 0 < c → 0 < r.cursor) :
    (r.take need).isSome = need.met r.cursor := by
  cases need with
  | refused => rfl
  | room request copied size =>
      obtain ⟨hlt, hcopied, hsize, hpos⟩ := hneed
      obtain ⟨hfits, hover⟩ := Room.ensure_ample h hlt (hpos.imp_right hc)
      rw [Need.met, Room.take]
      by_cases hle : request + r.cursor ≤ defaultCapacity
      · obtain ⟨hok, hample, -, hfree⟩ := hfits hle
        have hcopies : copied.all (r.ensure request).2.copies = true := by
          rw [Option.all_eq_true]
          intro k hk
          have hbound := (Room.le_free hample).1 (Nat.le_refl (r.ensure request).2.free)
          have := hample.regular.le
          have := hcopied k hk
          rw [Room.copies, decide_eq_true_iff]
          omega
        rw [if_pos ⟨hok, hcopies⟩]
        simp [hle]
      · rw [hover (by omega)]
        simp [hle]

end CUtils
