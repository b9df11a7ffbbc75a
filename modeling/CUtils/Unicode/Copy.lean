import CUtils.Lib.Buffer
import CUtils.Unicode.RoundTrip

/-!
# UTF-8 in a buffer

`StrncpyStr16ToStr8` once more, as it writes to memory: a store outside of the buffer has no result,
the bytes of a character are stored from the last to the first, and `stopped` records that the check
for room has ended the loop. In a buffer of as many bytes as have been counted, and one, it does none
of these things; the buffer then holds the text and a zero.
-/

namespace CUtils.Unicode

open Utf Buffer

/-! ## The stores -/

/-- The buffer, `dstP` as a position in it, and `srcChar`. -/
structure Dst where
  block : List UInt8
  dstP : Nat
  srcChar : UInt32

/-- `*--dstP = byte`. -/
def Dst.push (d : Dst) (byte : UInt8) : Option Dst :=
  (store d.block (d.dstP - 1) byte).map fun block => { d with block, dstP := d.dstP - 1 }

/-- `*--dstP = (srcChar | UTF8_BYTE_MARK) & UTF8_BYTE_MASK; srcChar >>= UTF8_OFFSET;` -/
def Dst.continuation (d : Dst) : Option Dst :=
  (d.push ((d.srcChar ||| 0x80) &&& 0xBF).toUInt8).map fun d => { d with srcChar := d.srcChar >>> 6 }

/-- The byte that there is when there are `k` bytes or more. -/
def Dst.step (bytes k : Nat) (d : Dst) : Option Dst :=
  if bytes ≥ k then d.continuation else some d

/-- `Utf32CodePointToUtf8` into a buffer. -/
def storeUtf32CodePoint (block : List UInt8) (dstP : Nat) (srcChar : UInt32) (bytes : Nat) :
    Option (List UInt8) := do
  let d ← Dst.step bytes 4 ⟨block, dstP + bytes, srcChar⟩
  let d ← Dst.step bytes 3 d
  let d ← Dst.step bytes 2 d
  if bytes ≥ 1 then (d.push (d.srcChar ||| utf8FirstByteMark bytes).toUInt8).map Dst.block
  else some d.block

/-- What has been stored of the bytes `p.1`, with `p.2` left of the code point. -/
def Dst.mid (block : List UInt8) (dstP : Nat) (p : List UInt8 × UInt32) : Dst :=
  ⟨filled block dstP p.1, dstP, p.2⟩

theorem Dst.push_mid {block : List UInt8} {pos : Nat} {p : List UInt8 × UInt32}
    (h : pos + 1 + p.1.length ≤ block.length) (byte : UInt8) :
    (Dst.mid block (pos + 1) p).push byte = some (Dst.mid block pos (byte :: p.1, p.2)) := by
  rw [Dst.push, Dst.mid, Nat.add_sub_cancel, store_front h]
  rfl

theorem Dst.continuation_mid {block : List UInt8} {pos : Nat} {p : List UInt8 × UInt32}
    (h : pos + 1 + p.1.length ≤ block.length) :
    (Dst.mid block (pos + 1) p).continuation = some (Dst.mid block pos (utf8Continue p)) := by
  rw [Dst.continuation, Dst.push_mid h]
  rfl

/-- Behind a step `k` bytes at most are left to store. -/
theorem Dst.step_mid {block : List UInt8} {cur bytes k : Nat} {p : List UInt8 × UInt32}
    (hfit : cur + bytes ≤ block.length) (hlen : p.1.length = bytes - (k + 1)) :
    Dst.step bytes (k + 1) (Dst.mid block (cur + min bytes (k + 1)) p) =
      some (Dst.mid block (cur + min bytes k) (if bytes ≥ k + 1 then utf8Continue p else p)) := by
  rw [Dst.step]
  split
  · rename_i hge
    have hpos : cur + min bytes (k + 1) = cur + min bytes k + 1 := by omega
    rw [hpos, Dst.continuation_mid (by omega)]
  · have hpos : cur + min bytes (k + 1) = cur + min bytes k := by omega
    rw [hpos]

theorem length_continue_step {bytes k : Nat} {p : List UInt8 × UInt32}
    (hlen : p.1.length = bytes - (k + 1)) :
    (if bytes ≥ k + 1 then utf8Continue p else p).1.length = bytes - k := by
  split
  · rw [utf8Continue, List.length_cons]
    omega
  · omega

/-- Inside the buffer, the bytes stored are those of the code point. -/
theorem storeUtf32CodePoint_eq {block : List UInt8} {cur : Nat} (srcChar : UInt32) {bytes : Nat}
    (hbytes : bytes ≤ 4) (hfit : cur + bytes ≤ block.length) :
    storeUtf32CodePoint block cur srcChar bytes =
      some (filled block cur (utf32CodePointToUtf8 srcChar bytes)) := by
  have hstart : (⟨block, cur + bytes, srcChar⟩ : Dst) =
      Dst.mid block (cur + min bytes 4) ([], srcChar) := by
    rw [Dst.mid, filled_nil, Nat.min_eq_left hbytes]
  rw [storeUtf32CodePoint, utf32CodePointToUtf8, hstart]
  generalize hp4 : (([], srcChar) : List UInt8 × UInt32) = p4
  have hlen4 : p4.1.length = bytes - 4 := by
    rw [← hp4]
    simp
    omega
  rw [Dst.step_mid hfit hlen4]
  generalize hp3 : (if bytes ≥ 4 then utf8Continue p4 else p4) = p3
  have hlen3 : p3.1.length = bytes - 3 := hp3 ▸ length_continue_step hlen4
  simp only [Option.bind_eq_bind, Option.bind_some]
  rw [Dst.step_mid hfit hlen3]
  generalize hp2 : (if bytes ≥ 3 then utf8Continue p3 else p3) = p2
  have hlen2 : p2.1.length = bytes - 2 := hp2 ▸ length_continue_step hlen3
  simp only [Option.bind_some]
  rw [Dst.step_mid hfit hlen2]
  generalize hp1 : (if bytes ≥ 2 then utf8Continue p2 else p2) = p1
  have hlen1 : p1.1.length = bytes - 1 := hp1 ▸ length_continue_step hlen2
  simp only [Option.bind_some]
  split
  · rename_i hge
    rw [Nat.min_eq_right hge, Dst.push_mid (by omega)]
    rfl
  · rename_i hlt
    have hzero : min bytes 1 = 0 := by omega
    rw [hzero]
    rfl

/-! ## The loop -/

/-- How the loop ends: the buffer, `cur` as a position in it, and whether the check for room ended
it. -/
structure Copied where
  block : List UInt8
  cur : Nat
  stopped : Bool
  deriving DecidableEq

/-- The loop of `StrncpyStr16ToStr8` into a buffer. -/
def copyLoop (block : List UInt8) (cur str8Len : Nat) : List UInt16 → Option Copied
  | [] => some ⟨block, cur, false⟩
  | u :: rest =>
      let utf32 := (nextCodePoint u rest).1
      let len := utf32CodePointUtf8Length utf32
      if str8Len ≤ len then some ⟨block, cur, true⟩
      else
        (storeUtf32CodePoint block cur utf32 len).bind fun block =>
          copyLoop block (cur + len) (str8Len - len) (nextCodePoint u rest).2
termination_by units => units.length
decreasing_by exact length_nextCodePoint u rest

/-- `StrncpyStr16ToStr8` into a buffer; behind the loop, `*cur = '\0'`. -/
def copyStr16ToStr8 (units : List UInt16) (block : List UInt8) (str8Len : Nat) : Option Copied := do
  let r ← copyLoop block 0 str8Len units
  let block ← store r.block r.cur 0
  some { r with block }

/-- **The loop into a buffer** with room for the text: it keeps to the buffer, does not stop, and
leaves the text behind what was there. -/
theorem copyLoop_eq (units : List UInt16) {block : List UInt8} {cur room : Nat}
    (hroom : (utf8 (scalars units)).length < room) (hfit : cur + room ≤ block.length) :
    copyLoop block cur room units =
      some ⟨filled block cur (utf8 (scalars units)), cur + (utf8 (scalars units)).length, false⟩ := by
  induction units using take_induction generalizing block cur room with
  | nil =>
      rw [copyLoop]
      simp [scalars, utf8]
  | take u rest ih =>
      obtain ⟨text, htaken, hscalars⟩ := exists_taken u rest
      rw [hscalars, utf8_append, List.length_append] at hroom
      rw [hscalars, utf8_append, copyLoop]
      simp only [htaken.length]
      rw [if_neg (by omega), storeUtf32CodePoint_eq _ htaken.short (by omega), htaken.bytes,
        Option.bind_some, ih (by omega) (by rw [length_filled (by omega)]; omega),
        filled_filled (by omega), List.length_append, Nat.add_assoc]

/-- **The copy into a buffer**: the text and a zero, and behind it the buffer as it was. -/
theorem copyStr16ToStr8_eq (units : List UInt16) {block : List UInt8}
    (hfit : (utf8 (scalars units)).length + 1 ≤ block.length) :
    copyStr16ToStr8 units block ((utf8 (scalars units)).length + 1) =
      some ⟨filled block 0 (utf8 (scalars units) ++ [0]), (utf8 (scalars units)).length, false⟩ := by
  have hloop : copyLoop block 0 ((utf8 (scalars units)).length + 1) units =
      some ⟨filled block 0 (utf8 (scalars units)), 0 + (utf8 (scalars units)).length, false⟩ :=
    copyLoop_eq units (Nat.lt_succ_self _) (by omega)
  have hzero : store (filled block 0 (utf8 (scalars units))) (0 + (utf8 (scalars units)).length) 0 =
      some (filled block 0 (utf8 (scalars units) ++ [0])) := store_behind (by omega) 0
  rw [Nat.zero_add] at hloop hzero
  rw [copyStr16ToStr8, hloop]
  simp only [Option.bind_eq_bind, Option.bind_some, hzero]

/-! ## Zeros -/

theorem zero_mem_ofUnit (u : UInt16) : '\x00' ∈ ofUnit u ↔ 0 = u := by
  rw [ofUnit]
  split
  · rename_i hhalf
    refine iff_of_false (by simp) ?_
    rintro rfl
    revert hhalf
    decide
  · rename_i hwhole
    rw [List.mem_singleton]
    constructor
    · intro hchar
      have hlt := u.toNat_lt
      have hval : (Char.ofNat u.toNat).val.toNat = u.toNat :=
        val_ofNat (by rw [IsHigh, IsLow] at hwhole; omega)
      rw [← hchar] at hval
      exact UInt16.toNat_inj.1 hval
    · rintro rfl
      rfl

/-- The text has a zero exactly when the units do. -/
theorem zero_mem_scalars (units : List UInt16) : '\x00' ∈ scalars units ↔ 0 ∈ units := by
  induction units using scalars.induct with
  | case1 => simp [scalars]
  | case2 u => rw [scalars, zero_mem_ofUnit, List.mem_singleton]
  | case3 u v rest hpair ih =>
      have hchar : '\x00' ≠ ofPair u v := by
        intro hzero
        have hval := val_ofPair hpair.1 hpair.2
        rw [← hzero] at hval
        change 0 = _ at hval
        omega
      have hu : 0 ≠ u := by
        rintro rfl
        exact absurd hpair.1 (by decide)
      have hv : 0 ≠ v := by
        rintro rfl
        exact absurd hpair.2 (by decide)
      rw [scalars, if_pos hpair, List.mem_cons, List.mem_cons, List.mem_cons, ih]
      simp only [hchar, hu, hv, false_or]
  | case4 u v rest hpair ih =>
      rw [scalars, if_neg hpair, List.mem_append, zero_mem_ofUnit, ih]
      exact List.mem_cons.symm

theorem zero_mem_utf8 (text : List Char) : 0 ∈ utf8 text ↔ '\x00' ∈ text := by
  constructor
  · intro hzero
    by_contra hnot
    refine utf8_ne_zero (fun c hc => ?_) 0 hzero rfl
    rintro rfl
    exact hnot hc
  · intro hmem
    exact List.mem_flatMap.2 ⟨'\x00', hmem, by decide⟩

/-- **UTF-16 to UTF-8 on any units** without a zero: the result is the encoding of the text the units
stand for, halves of pairs left out. The count is the number of bytes that are written in front of
the zero into a buffer of that many bytes and one; no store leaves that buffer, and the check for
room does not stop the loop. -/
theorem str16ToStr8_any {str16 : List UInt16} (hne : str16 ≠ []) (hzero : 0 ∉ str16)
    (hlength : (utf8 (scalars str16)).length < intMax) :
    str16ToStr8 str16 = utf8 (scalars str16) ∧
      ∃ utf8Len, utf16ToUtf8Length str16 = some utf8Len ∧
        copyStr16ToStr8 str16 (List.replicate (utf8Len + 1) 0) (utf8Len + 1) =
          some ⟨utf8 (scalars str16) ++ [0], utf8Len, false⟩ := by
  have hbytes : ∀ b ∈ utf8 (scalars str16), b ≠ 0 := by
    rintro b hb rfl
    exact hzero ((zero_mem_scalars str16).1 ((zero_mem_utf8 _).1 hb))
  refine ⟨?_, (utf8 (scalars str16)).length, utf16ToUtf8Length_scalars hne (by omega), ?_⟩
  · rw [str16ToStr8_scalars hne hlength, ofCString_eq_self hbytes]
  · rw [copyStr16ToStr8_eq str16 (by simp), filled]
    simp

/-- `A` and a smiley between three halves: in front of all, in front of a pair, and at the end. -/
theorem str16ToStr8_any_halves :
    let str16 : List UInt16 := [0xDC00, 0x41, 0xD83D, 0xD83D, 0xDE00, 0xD800]
    str16ToStr8 str16 = utf8 ['A', '😀'] ∧
      ∃ utf8Len, utf16ToUtf8Length str16 = some utf8Len ∧
        copyStr16ToStr8 str16 (List.replicate (utf8Len + 1) 0) (utf8Len + 1) =
          some ⟨utf8 ['A', '😀'] ++ [0], utf8Len, false⟩ := by
  have hscalars : scalars [0xDC00, 0x41, 0xD83D, 0xD83D, 0xDE00, 0xD800] = ['A', '😀'] := by
    decide +kernel
  have hany : (0 : UInt16) ∉ [0xDC00, 0x41, 0xD83D, 0xD83D, 0xDE00, 0xD800] := by decide
  have hresult := str16ToStr8_any (by simp) hany (by rw [hscalars]; decide +kernel)
  rwa [hscalars] at hresult

end CUtils.Unicode
