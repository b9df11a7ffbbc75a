import Mathlib.Data.Nat.Bitwise
import Mathlib.Data.List.Range
import Mathlib.Tactic.Ring

/-!
# Flat byte memory and machine words

A block of memory is a function from positions to bytes, so copying, overwriting and comparing
are pointwise. Words are stored least significant byte first; `leNat` and `leBytes` pass
between a word and its bytes. `size_t` arithmetic is natural-number arithmetic modulo `2 ^ 64`.
-/

namespace ByteMemory

/-! ## `size_t` -/

/-- One more than the largest `size_t`. -/
def sizeLimit : Nat := 2 ^ 64

-- Irreducible, and with no addition of the modulus to a variable: comparing two states must not
-- make Lean count to it.
@[irreducible] def szAdd (a b : Nat) : Nat := (a + b) % sizeLimit

/-- Subtraction of two `size_t`, wrapping below zero. -/
@[irreducible] def szSub (a b : Nat) : Nat := if b ≤ a then a - b else sizeLimit - (b - a)

@[irreducible] def szMul (a b : Nat) : Nat := a * b % sizeLimit

theorem szAdd_of_lt {a b : Nat} (h : a + b < sizeLimit) : szAdd a b = a + b := by
  unfold szAdd
  exact Nat.mod_eq_of_lt h

theorem szSub_of_le {a b : Nat} (hb : b ≤ a) : szSub a b = a - b := by
  unfold szSub
  exact if_pos hb

theorem szSub_of_lt {a b : Nat} (hb : a < b) : szSub a b = sizeLimit - (b - a) := by
  unfold szSub
  exact if_neg (Nat.not_le.2 hb)

theorem szMul_of_lt {a b : Nat} (h : a * b < sizeLimit) : szMul a b = a * b := by
  unfold szMul
  exact Nat.mod_eq_of_lt h

/-- `a + b`, unless it wraps around. -/
def checkedAdd (a b : Nat) : Option Nat := if a + b < sizeLimit then some (a + b) else none

/-- `a - b`, unless it wraps around. -/
def checkedSub (a b : Nat) : Option Nat := if b ≤ a then some (a - b) else none

/-- `a * b`, unless it wraps around. -/
def checkedMul (a b : Nat) : Option Nat := if a * b < sizeLimit then some (a * b) else none

theorem szAdd_of_checked {a b c : Nat} (h : checkedAdd a b = some c) : szAdd a b = c := by
  obtain ⟨hlt, hc⟩ := Option.ite_none_right_eq_some.1 h
  rw [szAdd_of_lt hlt, Option.some.inj hc]

theorem szSub_of_checked {a b c : Nat} (h : checkedSub a b = some c) : szSub a b = c := by
  obtain ⟨hle, hc⟩ := Option.ite_none_right_eq_some.1 h
  rw [szSub_of_le hle, Option.some.inj hc]

theorem szMul_of_checked {a b c : Nat} (h : checkedMul a b = some c) : szMul a b = c := by
  obtain ⟨hlt, hc⟩ := Option.ite_none_right_eq_some.1 h
  rw [szMul_of_lt hlt, Option.some.inj hc]

theorem szAdd_lt (a b : Nat) : szAdd a b < sizeLimit := by
  unfold szAdd
  exact Nat.mod_lt _ (by decide)

/-- Bytes that round `size` up to a multiple of four. -/
def padOf (size : Nat) : Nat := (4 - size % 4) % 4

theorem padOf_lt (size : Nat) : padOf size < 4 := Nat.mod_lt _ (by decide)

theorem padOf_add_mod (size : Nat) : (size + padOf size) % 4 = 0 := by
  unfold padOf
  omega

/-! ## Memory -/

/-- The contents of a block of memory, by position. -/
abbrev Mem := Nat → UInt8

/-- The `n` bytes from position `pos` on. -/
def Mem.read (m : Mem) (pos n : Nat) : List UInt8 := (List.range n).map fun i => m (pos + i)

/-- Copy the first `n` bytes of `src` to position `pos`. -/
def Mem.write (m : Mem) (pos n : Nat) (src : Mem) : Mem :=
  fun j => if pos ≤ j ∧ j < pos + n then src (j - pos) else m j

/-- A block that keeps the first `n` bytes of `m` and is `fresh` above them. -/
def Mem.keep (m : Mem) (n : Nat) (fresh : Mem) : Mem := fun j => if j < n then m j else fresh j

/-- The memory a pointer to the bytes `l` points at. -/
def Mem.ofList (l : List UInt8) : Mem := fun i => l.getD i 0

/-- Two blocks agree below position `n`. -/
def Mem.AgreeTo (n : Nat) (m m' : Mem) : Prop := ∀ i < n, m i = m' i

@[simp] theorem Mem.length_read (m : Mem) (pos n : Nat) : (m.read pos n).length = n := by
  simp [Mem.read]

@[simp] theorem Mem.read_zero (m : Mem) (pos : Nat) : m.read pos 0 = [] := rfl

theorem Mem.getElem?_read (m : Mem) (pos n i : Nat) :
    (m.read pos n)[i]? = if i < n then some (m (pos + i)) else none := by
  unfold Mem.read
  rw [List.getElem?_map]
  by_cases h : i < n
  · rw [List.getElem?_range h, if_pos h]; rfl
  · rw [if_neg h, List.getElem?_eq_none (by simpa using Nat.le_of_not_lt h)]; rfl

theorem Mem.read_congr {m m' : Mem} {pos pos' n : Nat}
    (h : ∀ i < n, m (pos + i) = m' (pos' + i)) : m.read pos n = m'.read pos' n := by
  unfold Mem.read
  refine List.map_congr_left fun i hi => h i (List.mem_range.1 hi)

/-- Consecutive reads are one read. -/
theorem Mem.read_add (m : Mem) (pos a b : Nat) :
    m.read pos (a + b) = m.read pos a ++ m.read (pos + a) b := by
  unfold Mem.read
  rw [List.range_add, List.map_append, List.map_map]
  refine congrArg _ (List.map_congr_left fun i _ => ?_)
  simp [Nat.add_assoc]

theorem Mem.take_read (m : Mem) (pos n k : Nat) (h : k ≤ n) : (m.read pos n).take k = m.read pos k := by
  obtain ⟨d, rfl⟩ := Nat.exists_eq_add_of_le h
  rw [Mem.read_add, List.take_append_of_le_length (by simp), List.take_of_length_le (by simp)]

theorem Mem.read_write_self (m : Mem) (pos n : Nat) (src : Mem) :
    (m.write pos n src).read pos n = src.read 0 n := by
  refine Mem.read_congr fun i hi => ?_
  simp [Mem.write, hi]

theorem Mem.agreeTo_write (m : Mem) (pos n : Nat) (src : Mem) :
    Mem.AgreeTo pos (m.write pos n src) m := by
  intro i hi
  unfold Mem.write
  rw [if_neg (by omega)]

theorem Mem.agreeTo_keep (m : Mem) (n : Nat) (fresh : Mem) : Mem.AgreeTo n (m.keep n fresh) m :=
  fun _ hi => if_pos hi

theorem Mem.AgreeTo.refl (n : Nat) (m : Mem) : Mem.AgreeTo n m m := fun _ _ => rfl

theorem Mem.AgreeTo.mono {n k : Nat} {m m' : Mem} (h : Mem.AgreeTo n m m') (hk : k ≤ n) :
    Mem.AgreeTo k m m' := fun i hi => h i (Nat.lt_of_lt_of_le hi hk)

theorem Mem.AgreeTo.trans {n : Nat} {m m' m'' : Mem} (h : Mem.AgreeTo n m m')
    (h' : Mem.AgreeTo n m' m'') : Mem.AgreeTo n m m'' := fun i hi => (h i hi).trans (h' i hi)

theorem Mem.AgreeTo.read_eq {n pos k : Nat} {m m' : Mem} (h : Mem.AgreeTo n m m')
    (hk : pos + k ≤ n) : m.read pos k = m'.read pos k :=
  Mem.read_congr fun i hi => h _ (by omega)

theorem Mem.read_ofList (l : List UInt8) : (Mem.ofList l).read 0 l.length = l := by
  refine List.ext_getElem? fun i => ?_
  rw [Mem.getElem?_read]
  by_cases h : i < l.length
  · simp [h, Mem.ofList]
  · rw [if_neg h, List.getElem?_eq_none (Nat.le_of_not_lt h)]

theorem Mem.read_const (b : UInt8) (pos n : Nat) :
    Mem.read (fun _ => b) pos n = List.replicate n b := by
  simp [Mem.read, List.map_const']

/-! ## Little-endian words -/

/-- The word whose bytes are `l`, least significant first. -/
def leNat : List UInt8 → Nat
  | [] => 0
  | b :: bs => b.toNat + 256 * leNat bs

/-- The `w` low bytes of `n`, least significant first. -/
def leBytes : Nat → Nat → List UInt8
  | 0, _ => []
  | w + 1, n => UInt8.ofNat (n % 256) :: leBytes w (n / 256)

@[simp] theorem leNat_nil : leNat [] = 0 := rfl

theorem leNat_cons (b : UInt8) (bs : List UInt8) :
    leNat (b :: bs) = b.toNat + 256 * leNat bs := rfl

theorem leBytes_succ (w n : Nat) :
    leBytes (w + 1) n = UInt8.ofNat (n % 256) :: leBytes w (n / 256) := rfl

@[simp] theorem length_leBytes (w n : Nat) : (leBytes w n).length = w := by
  induction w generalizing n with
  | zero => rfl
  | succ w ih => rw [leBytes_succ, List.length_cons, ih]

theorem leNat_leBytes (w n : Nat) : leNat (leBytes w n) = n % 256 ^ w := by
  induction w generalizing n with
  | zero => exact (Nat.mod_one n).symm
  | succ w ih =>
      have hb : (UInt8.ofNat (n % 256)).toNat = n % 256 := by simp
      rw [leBytes_succ, leNat_cons, ih, hb, Nat.pow_succ, Nat.mul_comm (256 ^ w), Nat.mod_mul]

theorem leBytes_zero (k : Nat) : leBytes k 0 = List.replicate k 0 := by
  induction k with
  | zero => rfl
  | succ k ih => rw [leBytes_succ, List.replicate_succ, Nat.zero_div, ih]; rfl

/-- A short word, stored in more bytes than it has, is followed by zeros. -/
theorem leBytes_length_add (l : List UInt8) (k : Nat) :
    leBytes (l.length + k) (leNat l) = l ++ List.replicate k 0 := by
  induction l with
  | nil => simpa using leBytes_zero k
  | cons b bs ih =>
      have hb : b.toNat < 256 := b.toNat_lt
      have hmod : (b.toNat + 256 * leNat bs) % 256 = b.toNat := by omega
      have hdiv : (b.toNat + 256 * leNat bs) / 256 = leNat bs := by omega
      rw [List.length_cons, Nat.add_right_comm, leNat_cons, leBytes_succ, hmod, hdiv, ih]
      simp

/-- Masking off the high bytes of a word keeps its low bytes. -/
theorem leNat_mod_pow (l : List UInt8) (k : Nat) : leNat l % 256 ^ k = leNat (l.take k) := by
  induction l generalizing k with
  | nil => simp
  | cons b bs ih =>
      cases k with
      | zero => simp [Nat.mod_one]
      | succ k =>
          have hb : b.toNat < 256 := b.toNat_lt
          rw [List.take_succ_cons, leNat_cons, leNat_cons, ← ih k, Nat.pow_succ, Nat.mul_comm (256 ^ k),
            Nat.mod_mul]
          congr 1
          · omega
          · rw [show (b.toNat + 256 * leNat bs) / 256 = leNat bs by omega]

/-! ## Types with a fixed-width representation -/

/-- A type whose values are stored in memory as `width` bytes. -/
class Scalar (α : Type) where
  width : Nat
  encode : α → List UInt8
  decode : List UInt8 → α
  /-- The value a `T {}` declaration gives. -/
  zero : α
  width_pos : 0 < width
  width_le : width ≤ 8
  length_encode : ∀ a, (encode a).length = width
  decode_encode : ∀ a, decode (encode a) = a

attribute [simp] Scalar.length_encode Scalar.decode_encode

/-- A word of `w` bytes. -/
@[reducible] def Scalar.word (w : Nat) (h0 : 0 < w) (h8 : w ≤ 8) : Scalar (BitVec (8 * w)) where
  width := w
  encode v := leBytes w v.toNat
  decode l := BitVec.ofNat (8 * w) (leNat l)
  zero := 0
  width_pos := h0
  width_le := h8
  length_encode _ := length_leBytes _ _
  decode_encode v := by
    have hv : v.toNat < 256 ^ w := by
      rw [show (256 : Nat) = 2 ^ 8 from rfl, ← Nat.pow_mul]
      exact v.isLt
    rw [leNat_leBytes, Nat.mod_eq_of_lt hv, BitVec.ofNat_toNat, BitVec.setWidth_eq]

instance : Scalar (BitVec 8) := Scalar.word 1 (by decide) (by decide)
instance : Scalar (BitVec 16) := Scalar.word 2 (by decide) (by decide)
instance : Scalar (BitVec 32) := Scalar.word 4 (by decide) (by decide)
instance : Scalar (BitVec 64) := Scalar.word 8 (by decide) (by decide)

/-- A `bool` is one byte, zero exactly for `false`. -/
instance : Scalar Bool where
  width := 1
  encode b := [if b then 1 else 0]
  decode l := l.headD 0 != 0
  zero := false
  width_pos := by decide
  width_le := by decide
  length_encode _ := rfl
  decode_encode b := by cases b <;> rfl

/-! ## Limits of integer types -/

def int32Max : Int := 2147483647

end ByteMemory
