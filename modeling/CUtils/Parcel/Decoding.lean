import CUtils.Lib.Source
import CUtils.Parcel.ObjectCheck

/-!
# What a reader decodes

To a reader the data is a byte source: a range can be had when it lies in the data and
`ValidateReadData` accepts it (`Parcel.passed`). What the check accepts depends on the cached
index, but not in a way that shows: the objects an accepted check has passed end before the
cursor, so for every range further on the answer is what it was before. A source seen from a state
is therefore seen from every state the readers lead to (`Sees`), and a reader can be specified by
a decoder over that source (`Follows`).

`Parcel.source` is the source a reader should see: the data outside every recorded object. While
the recorded offsets ascend the two are one (`Ordered.passed_eq`).
-/

namespace CUtils

open StateRun ByteMemory Parcel

variable [Target]

/-! ## The source of a parcel -/

omit [Target] in
/-- A smaller range further on is accepted if the larger one is. -/
theorem scanObjects_mono {r r' u u' : Nat} (hr : r ≤ r') (hu : u' ≤ u) {os : List Nat} {i i' : Nat}
    (h : (scanObjects r u os i).isSome = true) : (scanObjects r' u' os i').isSome = true := by
  induction os generalizing i i' with
  | nil => rfl
  | cons o os ih =>
      rw [scanObjects] at h ⊢
      by_cases hstop : u' > o
      · rw [if_pos hstop]
        rw [if_pos (by omega)] at h
        by_cases hmeet : r < szAdd o flatSize
        · rw [if_pos hmeet] at h
          exact absurd h (by simp)
        · rw [if_neg hmeet] at h
          rw [if_neg (by omega)]
          exact ih h
      · rw [if_neg hstop]
        rfl

omit [Target] in
/-- Objects that have ended are passed. -/
theorem scanObjects_append {r u : Nat} {front : List Nat} (hend : ∀ o ∈ front, o + flatSize ≤ r)
    (hru : r ≤ u) (hmax : r ≤ ptrdiffMax) (back : List Nat) (i : Nat) :
    scanObjects r u (front ++ back) i = scanObjects r u back (i + front.length) := by
  induction front generalizing i with
  | nil => rfl
  | cons o os ih =>
      have ho := hend o (by simp)
      have hpos : 0 < flatSize := by decide
      rw [List.cons_append, scanObjects, szAdd_flatSize (by omega), if_pos (by omega),
        if_neg (by omega), ih (fun x hx => hend x (by simp [hx])), List.length_cons,
        Nat.add_right_comm, Nat.add_assoc]

/-- `ValidateReadData`, called with the read cursor at `r`, accepts what lies below `u`. -/
def Parcel.Accepts (p : Parcel) (r u : Nat) : Prop :=
  Target.objectCheck = true →
    (scanObjects r u (p.offsets.drop p.nextObjectIdx) p.nextObjectIdx).isSome = true

instance (p : Parcel) (r u : Nat) : Decidable (p.Accepts r u) :=
  inferInstanceAs (Decidable (_ → _))

theorem scan_isSome {p : Parcel} {u : Nat} :
    (p.scan u).isSome = true ↔ p.Accepts p.readCursor u := by
  unfold Parcel.scan Parcel.Accepts
  by_cases hcheck : Target.objectCheck = true
  · rw [if_pos hcheck]
    exact ⟨fun h _ => h, fun h => h hcheck⟩
  · rw [if_neg hcheck]
    exact ⟨fun _ h => absurd h hcheck, fun _ => rfl⟩

theorem Parcel.Accepts.mono {p : Parcel} {r r' u u' : Nat} (h : p.Accepts r u) (hr : r ≤ r')
    (hu : u' ≤ u) : p.Accepts r' u' := fun hcheck => scanObjects_mono hr hu (h hcheck)

/-- An accepted check makes no difference to the ranges further on: the objects it has passed end
at or before the cursor. -/
theorem accepts_consumed {p : Parcel} (hp : Sound p) {n j r u v : Nat} (hj : p.scan v = some j)
    (hr : p.readCursor ≤ r) (hru : r ≤ u) (hmax : r ≤ ptrdiffMax) :
    (p.consumed n j).Accepts r u ↔ p.Accepts r u := by
  refine imp_congr_right fun hcheck => ?_
  rw [Parcel.scan, if_pos hcheck] at hj
  obtain ⟨k, hk, rfl, hpassed, -⟩ := scanObjects_some
    (fun o ho => hp.offsets_le o (List.mem_of_mem_drop ho)) hj
  rw [List.length_drop] at hk
  have hsplit := List.take_append_drop k (p.offsets.drop p.nextObjectIdx)
  have hskip := scanObjects_append (r := r) (u := u)
    (fun o ho => (hpassed o ho).2.trans hr) hru hmax
    ((p.offsets.drop p.nextObjectIdx).drop k) p.nextObjectIdx
  rw [hsplit, List.length_take, List.length_drop, min_eq_left hk, List.drop_drop] at hskip
  rw [hskip]
  rfl

omit [Target] in
/-- The bytes of the data, where `keep` allows them to be had. -/
def Parcel.sourceOf (p : Parcel) (keep : Nat → Nat → Prop) [∀ r u, Decidable (keep r u)]
    (hkeep : ∀ {r r' u u'}, keep r u → r ≤ r' → u' ≤ u → keep r' u') : Source where
  piece r n := if r + n ≤ p.dataSize ∧ keep r (r + n) then some (p.bytes.read r n) else none
  length_piece {r n bs} h := by
    obtain ⟨-, hbs⟩ := Option.ite_none_right_eq_some.1 h
    rw [← Option.some.inj hbs, Mem.length_read]
  split {r a b bs} h := by
    obtain ⟨⟨hle, hk⟩, hbs⟩ := Option.ite_none_right_eq_some.1 h
    rw [← Option.some.inj hbs, Mem.read_add, List.take_left' (Mem.length_read _ _ _),
      List.drop_left' (Mem.length_read _ _ _),
      if_pos ⟨by omega, hkeep hk le_rfl (by omega)⟩,
      if_pos ⟨by omega, hkeep hk (by omega) (by omega)⟩]
    exact ⟨rfl, rfl⟩

omit [Target] in
theorem sourceOf_eq_some {p : Parcel} {keep : Nat → Nat → Prop} [∀ r u, Decidable (keep r u)]
    {hkeep : ∀ {r r' u u'}, keep r u → r ≤ r' → u' ≤ u → keep r' u'} {r n : Nat} {bs : List UInt8} :
    (p.sourceOf keep hkeep).piece r n = some bs ↔
      (r + n ≤ p.dataSize ∧ keep r (r + n)) ∧ p.bytes.read r n = bs :=
  Option.ite_none_right_eq_some.trans (and_congr_right fun _ => Option.some_inj)

/-- What the readers can have. -/
def Parcel.passed (p : Parcel) : Source :=
  p.sourceOf p.Accepts fun h hr hu => h.mono hr hu

omit [Target] in
/-- No recorded object has a byte between `r` and `u`. -/
def Parcel.Free (p : Parcel) (r u : Nat) : Prop := ∀ o ∈ p.offsets, o + flatSize ≤ r ∨ u ≤ o

instance (p : Parcel) (r u : Nat) : Decidable (p.Free r u) :=
  inferInstanceAs (Decidable (∀ o ∈ p.offsets, _))

omit [Target] in
theorem Parcel.Free.mono {p : Parcel} {r r' u u' : Nat} (h : p.Free r u) (hr : r ≤ r')
    (hu : u' ≤ u) : p.Free r' u' := by
  intro o ho
  rcases h o ho with h | h
  · exact Or.inl (by omega)
  · exact Or.inr (by omega)

omit [Target] in
/-- The data outside every recorded object. -/
def Parcel.source (p : Parcel) : Source := p.sourceOf p.Free fun h hr hu => h.mono hr hu

theorem Parcel.Free.accepts {p : Parcel} (hp : Sound p) {r u : Nat} (h : p.Free r u) :
    p.Accepts r u := by
  intro _
  by_contra hnone
  rw [Bool.not_eq_true, Option.isSome_eq_false_iff, Option.isNone_iff_eq_none] at hnone
  obtain ⟨o, hmem, hlt, hmeet⟩ := scanObjects_none
    (fun o hmem => hp.offsets_le o (List.mem_of_mem_drop hmem)) hnone
  have := h o (List.mem_of_mem_drop hmem)
  omega

/-- The check accepts what lies outside every object. -/
theorem source_le_passed {p : Parcel} (hp : Sound p) : p.source.Le 0 p.passed := by
  intro r n bs _ h
  obtain ⟨⟨hle, hfree⟩, hbs⟩ := sourceOf_eq_some.1 h
  exact sourceOf_eq_some.2 ⟨⟨hle, hfree.accepts hp⟩, hbs⟩

/-! ## Seeing a source -/

theorem Looked.dataSize {b : Bool} {p p' : Parcel} (h : Looked b p p') :
    p'.dataSize = p.dataSize := by rw [h.eq]

/-- From the read cursor on, the readers find `s`. -/
structure Sees (s : Source) (p : Parcel) : Prop where
  sound : Sound p
  bound : ∀ ⦃r n bs⦄, s.piece r n = some bs → r + n ≤ p.dataSize
  piece : ∀ ⦃r n bs⦄, p.readCursor ≤ r → (s.piece r n = some bs ↔ p.passed.piece r n = some bs)

theorem Sees.passed {p : Parcel} (hp : Sound p) : Sees p.passed p :=
  ⟨hp, fun _ _ _ h => (sourceOf_eq_some.1 h).1.1, fun _ _ _ _ => Iff.rfl⟩

omit [Target] in
/-- The cursor is at `r`, or both are past the data. -/
def Parcel.At (p : Parcel) (r : Nat) : Prop :=
  p.readCursor = r ∨ p.dataSize ≤ p.readCursor ∧ p.dataSize < r

omit [Target] in
theorem Parcel.At.cursor {p : Parcel} {r : Nat} (h : p.At r) (hr : r ≤ p.dataSize) :
    p.readCursor = r := by
  rcases h with h | h
  · exact h
  · omega

theorem Sees.forward {s : Source} {p : Parcel} (h : Sees s p) {c : Nat} (hge : p.readCursor ≤ c)
    (hle : c ≤ ptrdiffMax) : Sees s { p with readCursor := c } where
  sound := h.sound.looked (looked_forward (b := true) h.sound hge hle)
  bound := h.bound
  piece _ _ _ hr := h.piece (hge.trans hr)

/-- The source has the bytes at the cursor: the check accepts them, and after they have been taken
the source is still seen. -/
theorem Sees.consumed {s : Source} {p : Parcel} (h : Sees s p) {r n : Nat} {bs : List UInt8}
    (hat : p.At r) (hbs : s.piece r n = some bs) :
    p.readCursor = r ∧ n ≤ p.getReadableBytes ∧ p.bytes.read r n = bs ∧
      ∃ j, p.scan (szAdd p.readCursor n) = some j ∧ Sees s (p.consumed n j) ∧
        (p.consumed n j).readCursor = r + n := by
  have hcur : p.readCursor = r := hat.cursor (by have := h.bound hbs; omega)
  have hp := h.sound
  subst hcur
  obtain ⟨⟨hle, hacc⟩, hread⟩ := sourceOf_eq_some.1 ((h.piece le_rfl).1 hbs)
  have hn : n ≤ p.getReadableBytes := le_getReadableBytes.2 (Or.inr hle)
  obtain ⟨hadd, hmax⟩ := hp.readable_add hn
  rw [← hadd, ← scan_isSome] at hacc
  obtain ⟨j, hj⟩ := Option.isSome_iff_exists.1 hacc
  refine ⟨rfl, hn, hread, j, hj, ⟨hp.looked (looked_consumed hp hn hj), h.bound, ?_⟩, hadd⟩
  intro r' k cs hr'
  have hge : p.readCursor ≤ r' := (Nat.le_add_right _ n).trans (hadd ▸ hr')
  refine (h.piece hge).trans ?_
  rw [Parcel.passed, Parcel.passed, sourceOf_eq_some, sourceOf_eq_some]
  refine and_congr_left' (and_congr_right fun hsize => ?_)
  have hcap := hp.size_le.trans hp.cap_le
  exact (accepts_consumed hp hj hge (by omega) (by omega)).symm

/-- The source has no bytes at the cursor: there are not enough, or the check rejects them. -/
theorem Sees.refused {s : Source} {p : Parcel} (h : Sees s p) {r n : Nat} (h0 : 0 < n)
    (hat : p.At r) (hnone : s.piece r n = none) :
    n ≤ p.getReadableBytes → p.scan (szAdd p.readCursor n) = none := by
  intro hn
  have hle := le_getReadableBytes.1 hn
  have hcur : p.readCursor = r := by
    rcases hat with h | h
    · exact h
    · omega
  subst hcur
  by_contra hscan
  have hacc := scan_isSome.1 (Option.isSome_iff_ne_none.2 hscan)
  rw [(h.sound.readable_add hn).1] at hacc
  have hsome := (h.piece le_rfl).2 (sourceOf_eq_some.2 ⟨⟨by omega, hacc⟩, rfl⟩)
  rw [hnone] at hsome
  exact absurd hsome (by simp)

/-- Skipping padding. At the end of the data the cursor may go too far, and then nothing more can
be read. -/
theorem Sees.skipped {s : Source} {p : Parcel} (h : Sees s p) {r : Nat} (hat : p.At r) (n : Nat) :
    Sees s (p.skipped n) ∧ (p.skipped n).At (r + n) := by
  have hp := h.sound
  have hsize := hp.size_le
  have hcap := hp.cap_le
  have hread := hp.read_le
  rw [Parcel.skipped, run_skipBytes]
  by_cases hn : p.getReadableBytes ≥ n
  · obtain ⟨hadd, hle⟩ := hp.readable_add hn
    rw [if_pos hn, hadd]
    refine ⟨h.forward (by omega) hle, ?_⟩
    rcases hat with rfl | hpast
    · exact Or.inl rfl
    · exact Or.inr ⟨by show p.dataSize ≤ p.readCursor + n; omega,
        by show p.dataSize < r + n; omega⟩
  · rw [if_neg hn]
    have hlt : p.dataSize < r + n := by
      have := mt le_getReadableBytes.2 hn
      rcases hat with h | h
      · omega
      · omega
    by_cases hc : p.readCursor < p.dataCapacity
    · rw [if_pos hc]
      exact ⟨h.forward hc.le hcap, Or.inr ⟨hsize, hlt⟩⟩
    · rw [if_neg hc]
      refine ⟨h, Or.inr ⟨?_, hlt⟩⟩
      show p.dataSize ≤ p.readCursor
      omega

/-- While the recorded offsets ascend, the readers see exactly what lies outside every object. -/
theorem Ordered.sees {p : Parcel} (ho : Ordered p) (hp : Sound p) (hc : Cached p) :
    Sees p.source p := by
  refine ⟨hp, fun _ _ _ h => (sourceOf_eq_some.1 h).1.1, fun r n bs hr => ?_⟩
  rw [Parcel.source, Parcel.passed, sourceOf_eq_some, sourceOf_eq_some]
  refine and_congr_left' (and_congr_right fun hsize => ⟨fun h => h.accepts hp, fun hacc => ?_⟩)
  have hmax : r ≤ ptrdiffMax := by
    have := hp.size_le.trans hp.cap_le
    omega
  have hmoved := looked_forward (b := true) hp hr hmax
  obtain ⟨j, hj⟩ := Option.isSome_iff_exists.1
    ((scan_isSome (p := { p with readCursor := r }) (u := r + n)).2 hacc)
  have hscan := scanned (hp.looked hmoved) hj
  intro o hmem
  rw [← List.take_append_drop j p.offsets] at hmem
  rcases List.mem_append.1 hmem with hmem | hmem
  · exact Or.inl (hscan.behind (hmoved.cached ho hc) o hmem)
  · exact Or.inr (hscan.ahead (hmoved.ordered.2 ho) o hmem)

/-! ## Words -/

/-- Where `d` decodes, `m` returns `ok` of the value and leaves the cursor behind it. -/
def Follows {α β : Type} (d : Source → Decoder α) (m : ParcelM β) (ok : α → β) : Prop :=
  ∀ ⦃s p r a r'⦄, Sees s p → p.At r → d s r = some (a, r') →
    (m.run p).1 = ok a ∧ Sees s (m.run p).2 ∧ (m.run p).2.At r'

/-- Where `d` does not decode, `m` reports failure. -/
def Misses {α β : Type} (d : Source → Decoder α) (m : ParcelM (Bool × β)) : Prop :=
  ∀ ⦃s p r⦄, Sees s p → p.At r → d s r = none → (m.run p).1.1 = false

section Words

variable {α β : Type} [Scalar α] {s : Source} {p : Parcel} {r : Nat}

theorem Sees.read_some (h : Sees s p) (hat : p.At r) {a : α} {r' : Nat}
    (hd : s.word r = some (a, r')) (v : α) :
    ((read v).run p).1 = (true, a) ∧ Sees s ((read v).run p).2 ∧ ((read v).run p).2.At r' := by
  obtain ⟨bs, hbs, rfl, rfl⟩ := Source.word_eq_some hd
  obtain ⟨rfl, hn, rfl, j, hj, hsees, hcur⟩ := h.consumed hat hbs
  rw [run_read, if_pos hn, hj]
  exact ⟨rfl, hsees, Or.inl hcur⟩

theorem Sees.read_none (h : Sees s p) (hat : p.At r) (hd : (s.word r : Option (α × Nat)) = none)
    (v : α) : ((read v).run p).1 = (false, v) := by
  have hnone := h.refused Scalar.width_pos hat (Option.map_eq_none_iff.1 hd)
  rw [run_read]
  by_cases hn : Scalar.width α ≤ p.getReadableBytes
  · rw [if_pos hn, hnone hn]
    rfl
  · rw [if_neg hn]

theorem read_follows (v : α) : Follows (fun s => s.word) (read v) fun a => (true, a) :=
  fun _ _ _ _ _ h hat hd => h.read_some hat hd v

theorem read_misses (v : α) : Misses (fun s => (s.word : Decoder α)) (read v) :=
  fun _ _ _ h hat hd => by rw [h.read_none hat hd]

theorem Sees.word_takes (h : Sees s p) :
    Decoder.Takes (s.word : Decoder α) (Scalar.width α) p.dataSize := by
  intro r x r' hx
  obtain ⟨bs, hbs, -, rfl⟩ := Source.word_eq_some hx
  exact ⟨h.bound hbs, le_rfl⟩

theorem readValue_follows : Follows (fun s => (s.word : Decoder α)) readValue id := by
  intro s p r a r' h hat hd
  obtain ⟨hres, hsees⟩ := h.read_some hat hd Scalar.zero
  refine ⟨?_, hsees⟩
  rw [readValue, run_bind, hres]
  rfl

theorem readPadded_follows (cast : BitVec 32 → β) (v : β) :
    Follows (fun s => s.word.map cast) (readPadded cast v) fun b => (true, b) := by
  intro s p r b r' h hat hd
  obtain ⟨a, ha, rfl⟩ := Decoder.map_eq_some hd
  obtain ⟨hres, hsees⟩ := h.read_some hat ha 0
  refine ⟨?_, hsees⟩
  rw [readPadded, run_bind, hres]
  rfl

theorem readPadded_misses (cast : BitVec 32 → β) (v : β) :
    Misses (fun s => s.word.map cast) (readPadded cast v) := by
  intro s p r h hat hd
  have hres := h.read_none hat (Decoder.map_eq_none.1 hd) 0
  rw [readPadded, run_bind, hres]
  rfl

end Words

/-! ## Strings -/

section Strings

variable {α : Type} [Scalar α] [DecidableEq α] {s : Source} {p : Parcel} {r : Nat}

/-- A length, as many characters and a terminator, and padding. The padding is not looked at. -/
def text (s : Source) : Decoder (List α) := fun r =>
  (s.word r).bind fun (x : BitVec 32 × Nat) =>
    if x.1.toInt < 0 ∨ x.1.toInt ≥ int32Max then none
    else
      let size := (x.1.toNat + 1) * Scalar.width α
      (s.piece x.2 size).bind fun bs =>
        (charsOf x.1.toNat bs).map fun cs => (cs, x.2 + size + padOf size)

omit [Target] [DecidableEq α] in
/-- The length of a string is small enough for its size not to wrap around. -/
theorem charBody_eq {n : Nat} (hn : n < 2 ^ 31) : charBody α n = (n + 1) * Scalar.width α ∧
    (n + 1) * Scalar.width α + 3 < sizeLimit := by
  have hw := Scalar.width_le (α := α)
  have hle : (n + 1) * Scalar.width α ≤ 2 ^ 31 * 8 := Nat.mul_le_mul (by omega) hw
  have hlim : (n + 1) * Scalar.width α + 3 < sizeLimit := by
    simp only [sizeLimit]
    omega
  refine ⟨?_, hlim⟩
  rw [charBody, szAdd_of_lt (by simp only [sizeLimit]; omega), szMul_of_lt (by omega)]

omit [Target] in
theorem toNat_lt_of_toInt_nonneg {n : BitVec 32} (h : ¬ n.toInt < 0) : n.toNat < 2 ^ 31 := by
  rw [BitVec.toInt_eq_toNat_cond] at h
  have := n.isLt
  split at h
  · omega
  · omega

omit [Target] in
theorem charsOf_length {n : Nat} {bs : List UInt8} {cs : List α} (h : charsOf n bs = some cs) :
    cs.length = n := by
  obtain ⟨-, hcs⟩ := Option.ite_none_right_eq_some.1 h
  rw [← Option.some.inj hcs]
  simp [chars]

omit [Target] in
theorem text_eq_some {cs : List α} {r' : Nat} (h : text s r = some (cs, r')) :
    ∃ (n : BitVec 32) (m : Nat) (bs : List UInt8), s.word r = some (n, m) ∧
      ¬ (n.toInt < 0 ∨ n.toInt ≥ int32Max) ∧
      s.piece m ((n.toNat + 1) * Scalar.width α) = some bs ∧ charsOf n.toNat bs = some cs ∧
      r' = m + (n.toNat + 1) * Scalar.width α + padOf ((n.toNat + 1) * Scalar.width α) := by
  obtain ⟨⟨n, m⟩, hword, hrest⟩ := Option.bind_eq_some_iff.1 h
  obtain ⟨hlen, hrest⟩ := Option.ite_none_left_eq_some.1 hrest
  obtain ⟨bs, hbs, hrest⟩ := Option.bind_eq_some_iff.1 hrest
  obtain ⟨cs', hcs, heq⟩ := Option.map_eq_some_iff.1 hrest
  rw [Prod.mk.injEq] at heq
  exact ⟨n, m, bs, hword, hlen, hbs, heq.1 ▸ hcs, heq.2.symm⟩

omit [Target] in
theorem text_of {n : BitVec 32} {m : Nat} {bs : List UInt8} {cs : List α}
    (hword : s.word r = some (n, m)) (hlen : ¬ (n.toInt < 0 ∨ n.toInt ≥ int32Max))
    (hbs : s.piece m ((n.toNat + 1) * Scalar.width α) = some bs)
    (hcs : charsOf n.toNat bs = some cs) :
    text s r = some
      (cs, m + (n.toNat + 1) * Scalar.width α + padOf ((n.toNat + 1) * Scalar.width α)) := by
  unfold text
  rw [hword, Option.bind_some, if_neg hlen]
  dsimp only
  rw [hbs, Option.bind_some, hcs, Option.map_some]

omit [Target] in
theorem text_le {t : Source} {c : Nat} (h : s.Le c t) :
    Decoder.Le c (text s : Decoder (List α)) (text t) := by
  intro r x hr hx
  obtain ⟨n, m, bs, hword, hlen, hbs, hcs, hnext⟩ := text_eq_some hx
  obtain ⟨hword', hm⟩ := h.word hr hword
  rw [text_of hword' hlen (h hm hbs) hcs, ← hnext]
  refine ⟨rfl, ?_⟩
  dsimp only at hm
  omega

theorem Sees.text_takes (h : Sees s p) :
    Decoder.Takes (text s : Decoder (List α)) 1 p.dataSize := by
  intro r x r' hx
  obtain ⟨n, m, bs, hword, -, -, -, hnext⟩ := text_eq_some hx
  obtain ⟨cs, hcs, -, hm⟩ := Source.word_eq_some hword
  have hle := h.bound hcs
  have hpos := Scalar.width_pos (α := BitVec 32)
  exact ⟨by omega, by omega⟩

theorem readCharBody_follows {n : Nat} (hn : n < 2 ^ 31) (h : Sees s p) (hat : p.At r)
    {bs : List UInt8} (hbs : s.piece r ((n + 1) * Scalar.width α) = some bs) :
    ((readCharBody n : ParcelM (Option (List α))).run p).1 = charsOf n bs ∧
      Sees s ((readCharBody n : ParcelM (Option (List α))).run p).2 ∧
      ((readCharBody n : ParcelM (Option (List α))).run p).2.At
        (r + (n + 1) * Scalar.width α + padOf ((n + 1) * Scalar.width α)) := by
  obtain ⟨hbody, hlim⟩ := charBody_eq (α := α) hn
  obtain ⟨rfl, hle, rfl, j, hj, hsees, hcur⟩ := h.consumed hat hbs
  have hgt : (n + 1) * Scalar.width α > n := by
    have := Nat.le_mul_of_pos_right (n + 1) (Scalar.width_pos (α := α))
    omega
  rw [run_readCharBody h.sound, hbody, if_pos ⟨hgt, hle⟩, hj, getPadSize_eq hlim]
  exact ⟨rfl, hsees.skipped (Or.inl hcur) _⟩

theorem readChars_follows :
    Follows (fun s => (text s : Decoder (List α))) readChars
      fun cs => (some (BitVec.ofNat 32 cs.length), some cs) := by
  intro s p r cs r' h hat hd
  obtain ⟨n, m, bs, hword, hlen, hbs, hcs, rfl⟩ := text_eq_some hd
  obtain ⟨hread, hsees, hm⟩ := h.read_some hat hword 0
  have hn := toNat_lt_of_toInt_nonneg (not_or.1 hlen).1
  obtain ⟨hres, hnext⟩ := readCharBody_follows hn hsees hm hbs
  have hcount : BitVec.ofNat 32 cs.length = n := by
    rw [charsOf_length hcs, BitVec.ofNat_toNat, BitVec.setWidth_eq]
  rw [hcs] at hres
  rw [readChars, run_bind, run_get, run_bind, hread]
  simp only [Bool.not_true, Bool.false_eq_true, if_false]
  rw [run_readAfterLength, if_neg hlen, hcount]
  simp only [hres, Option.elim]
  exact ⟨trivial, hnext⟩

end Strings

/-! ## Vectors -/

section Vectors

variable {α : Type} {s : Source} {p : Parcel} {r : Nat} {d : Source → Decoder α}

omit [Target] in
theorem length_resizeVector (val : List α) (n : Nat) (zero : α) :
    (resizeVector val n zero).length = n := by
  simp only [resizeVector, List.length_append, List.length_take, List.length_replicate]
  omega

theorem readElems_follows {readElem : α → ParcelM (Bool × α)}
    (helem : ∀ v, Follows d (readElem v) fun a => (true, a)) (h : Sees s p) (hat : p.At r)
    {vs xs : List α} {e : Nat} (hd : (d s).many vs.length r = some (xs, e)) :
    ((readElems readElem vs).run p).1 = (true, xs) ∧ Sees s ((readElems readElem vs).run p).2 ∧
      ((readElems readElem vs).run p).2.At e := by
  induction vs generalizing p r xs with
  | nil =>
      obtain ⟨rfl, rfl⟩ := Prod.mk.inj (Option.some.inj hd)
      exact ⟨rfl, h, hat⟩
  | cons v vs ih =>
      obtain ⟨x, ys, m, hfirst, hrest, rfl⟩ := Decoder.many_succ_eq_some hd
      obtain ⟨hx, hsees, hm⟩ := helem v h hat hfirst
      obtain ⟨hys, hlast⟩ := ih hsees hm hrest
      rw [readElems, run_bind, hx]
      simp only [Bool.not_true, Bool.false_eq_true, if_false, run_bind, run_pure, hys]
      exact ⟨trivial, hlast⟩

theorem readElems_misses {readElem : α → ParcelM (Bool × α)}
    (helem : ∀ v, Follows d (readElem v) fun a => (true, a)) (hmiss : ∀ v, Misses d (readElem v))
    (h : Sees s p) (hat : p.At r) {vs : List α} (hd : (d s).many vs.length r = none) :
    ((readElems readElem vs).run p).1.1 = false := by
  induction vs generalizing p r with
  | nil => exact absurd hd (by simp [Decoder.many])
  | cons v vs ih =>
      rw [readElems, run_bind]
      rcases Decoder.many_succ_eq_none hd with hfirst | ⟨x, m, hfirst, hrest⟩
      · have hfail : ((readElem v).run p).1 = (false, ((readElem v).run p).1.2) :=
          Prod.ext (hmiss v h hat hfirst) rfl
        rw [hfail]
        rfl
      · obtain ⟨hx, hsees, hm⟩ := helem v h hat hfirst
        have hfail := ih hsees hm hrest
        rw [hx]
        simp only [Bool.not_true, Bool.false_eq_true, if_false, run_bind, run_pure, hfail]

/-- The count of a vector. When it cannot be read, zero is read. -/
theorem Sees.readInt32_none (h : Sees s p) (hat : p.At r)
    (hd : (s.word r : Option (BitVec 32 × Nat)) = none) : (readInt32.run p).1 = 0 := by
  have hres := h.read_none hat hd (Scalar.zero : BitVec 32)
  rw [readInt32, readValue, run_bind, hres]
  rfl

theorem Sees.readInt32_some (h : Sees s p) (hat : p.At r) {n : BitVec 32} {m : Nat}
    (hd : s.word r = some (n, m)) :
    (readInt32.run p).1 = n ∧ Sees s (readInt32.run p).2 ∧ (readInt32.run p).2.At m :=
  readValue_follows h hat hd

theorem Sees.count_fits (h : Sees s p) (hat : p.At r) {n : BitVec 32} {m k : Nat}
    (hd : s.word r = some (n, m)) (hk : n.toNat = 0 ∨ m + n.toNat * k ≤ p.dataSize) :
    n.toNat * k ≤ (readInt32.run p).2.getReadableBytes := by
  obtain ⟨bs, hbs, -, hm⟩ := Source.word_eq_some hd
  obtain ⟨-, -, hcur⟩ := h.readInt32_some hat hd
  have hsize : (readInt32.run p).2.dataSize = p.dataSize := (readValue_reads p h.sound).dataSize
  have hle := h.bound hbs
  refine le_getReadableBytes.2 ?_
  rw [hcur.cursor (by omega), hsize]
  rcases hk with h0 | hk
  · exact Or.inl (by rw [h0, Nat.zero_mul])
  · exact Or.inr hk

variable {size maxSize : Nat} {zero : α} {readElem : α → ParcelM (Bool × α)}

theorem run_readVector (val : List α) (p : Parcel) :
    (readVector size maxSize zero readElem (some val)).run p =
      let c := readInt32.run p
      if c.1.toInt < 0 then ((false, some val), c.2)
      else if c.1.toNat > c.2.getReadableBytes / size ∨ c.1.toNat > maxSize then
        ((false, some val), c.2)
      else
        let e := (readElems readElem (resizeVector val c.1.toNat zero)).run c.2
        if e.1.1 = true then ((true, some e.1.2), e.2.skipped (getPadSize (szMul c.1.toNat size)))
        else ((false, some e.1.2), e.2) := by
  simp only [readVector, run_bind, run_ite, run_pure, run_get]
  split
  · rfl
  · split
    · rfl
    · obtain ⟨⟨ok, xs⟩, q⟩ := (readElems readElem
        (resizeVector val (readInt32.run p).1.toNat zero)).run (readInt32.run p).2
      cases ok with
      | false => rfl
      | true => rfl

/-- A vector whose count cannot be read is read as an empty one. -/
theorem readVector_lost (h : Sees s p) (hat : p.At r)
    (hd : (s.word r : Option (BitVec 32 × Nat)) = none) (val : List α) :
    ((readVector size maxSize zero readElem (some val)).run p).1 = (true, some []) := by
  have hzero := h.readInt32_none hat hd
  have hnil : resizeVector val 0 zero = [] :=
    List.eq_nil_of_length_eq_zero (length_resizeVector _ _ _)
  rw [run_readVector]
  simp [hzero, hnil, readElems]

/-- A vector of which everything is there is read. -/
theorem readVector_follows (hsize : 0 < size ∧ size ≤ 8) (hmax : 2 ^ 31 ≤ maxSize)
    (helem : ∀ v, Follows d (readElem v) fun a => (true, a)) (h : Sees s p) (hat : p.At r)
    (htakes : (d s).Takes size p.dataSize) {xs : List α} {e : Nat}
    (hd : Decoder.counted s (d s) r = some (xs, e)) (val : List α) :
    ((readVector size maxSize zero readElem (some val)).run p).1 = (true, some xs) ∧
      Sees s ((readVector size maxSize zero readElem (some val)).run p).2 ∧
      ((readVector size maxSize zero readElem (some val)).run p).2.At
        (e + padOf (xs.length * size)) := by
  obtain ⟨n, m, hword, hneg, hmany⟩ := Decoder.counted_eq_some hd
  have hn := toNat_lt_of_toInt_nonneg hneg
  obtain ⟨hlen, hsees, hm⟩ := h.readInt32_some hat hword
  have hfits := h.count_fits hat hword (htakes.many hmany)
  have hroom : ¬ (n.toNat > (readInt32.run p).2.getReadableBytes / size ∨ n.toNat > maxSize) := by
    have := (Nat.le_div_iff_mul_le hsize.1).2 hfits
    omega
  have helems := length_resizeVector val n.toNat zero
  rw [← helems] at hmany
  obtain ⟨hread, hsees', he⟩ := readElems_follows helem hsees hm hmany
  have hpad : getPadSize (szMul n.toNat size) = padOf (xs.length * size) := by
    have hle : n.toNat * size ≤ 2 ^ 31 * 8 := Nat.mul_le_mul hn.le hsize.2
    rw [Decoder.length_many hmany, helems, szMul_of_lt (by simp only [sizeLimit]; omega),
      getPadSize_eq (by simp only [sizeLimit]; omega)]
  rw [run_readVector]
  dsimp only
  rw [hlen, if_neg hneg, if_neg hroom, hread, if_pos rfl, hpad]
  exact ⟨rfl, hsees'.skipped he _⟩

/-- A vector of which the count is there and an element is not is refused. -/
theorem readVector_misses (helem : ∀ v, Follows d (readElem v) fun a => (true, a))
    (hmiss : ∀ v, Misses d (readElem v)) (h : Sees s p) (hat : p.At r) {n : BitVec 32} {m : Nat}
    (hword : s.word r = some (n, m)) (hd : Decoder.counted s (d s) r = none) (val : List α) :
    ((readVector size maxSize zero readElem (some val)).run p).1.1 = false := by
  obtain ⟨hlen, hsees, hm⟩ := h.readInt32_some hat hword
  rw [run_readVector]
  dsimp only
  rw [hlen]
  by_cases hneg : n.toInt < 0
  · rw [if_pos hneg]
  rw [if_neg hneg]
  by_cases hroom : n.toNat > (readInt32.run p).2.getReadableBytes / size ∨ n.toNat > maxSize
  · rw [if_pos hroom]
  rw [if_neg hroom]
  rw [Decoder.counted, hword, Option.bind_some, if_neg hneg,
    ← length_resizeVector val n.toNat zero] at hd
  have hfail := readElems_misses helem hmiss hsees hm hd
  rw [if_neg (by rw [hfail]; simp)]

/-! ## Vectors of strings -/

variable {β : Type} {dt : Source → Decoder (List β)} {readText : ParcelM (List β)}

theorem mapM_follows (helem : Follows dt readText id) (h : Sees s p) (hat : p.At r)
    {vs xs : List (List β)} {e : Nat} (hd : (dt s).many vs.length r = some (xs, e)) :
    ((vs.mapM fun _ => readText).run p).1 = xs ∧ Sees s ((vs.mapM fun _ => readText).run p).2 ∧
      ((vs.mapM fun _ => readText).run p).2.At e := by
  induction vs generalizing p r xs with
  | nil =>
      obtain ⟨rfl, rfl⟩ := Prod.mk.inj (Option.some.inj hd)
      exact ⟨rfl, h, hat⟩
  | cons v vs ih =>
      obtain ⟨x, ys, m, hfirst, hrest, rfl⟩ := Decoder.many_succ_eq_some hd
      obtain ⟨hx, hsees, hm⟩ := helem h hat hfirst
      obtain ⟨hys, hlast⟩ := ih hsees hm hrest
      rw [List.mapM_cons, run_bind, run_bind, run_pure, hx, hys]
      exact ⟨rfl, hlast⟩

theorem run_readStringsVector (val : List (List β)) (p : Parcel) :
    (readStringsVector readText (some val)).run p =
      let c := readInt32.run p
      if c.1.toInt < 0 then ((false, some val), c.2)
      else if c.1.toNat > c.2.getReadableBytes ∨ vectorMaxSize sizeofString < c.1.toNat then
        ((false, some val), c.2)
      else
        let e := ((resizeVector val c.1.toNat []).mapM fun _ => readText).run c.2
        ((true, some e.1), e.2) := by
  simp only [readStringsVector, run_bind, run_ite, run_pure, run_get]

theorem readStringsVector_lost (h : Sees s p) (hat : p.At r)
    (hd : (s.word r : Option (BitVec 32 × Nat)) = none) (val : List (List β)) :
    ((readStringsVector readText (some val)).run p).1 = (true, some []) := by
  have hzero := h.readInt32_none hat hd
  have hnil : resizeVector val 0 [] = [] :=
    List.eq_nil_of_length_eq_zero (length_resizeVector _ _ _)
  rw [run_readStringsVector]
  simp [hzero, hnil]

/-- A count that is not negative and not larger than the bytes behind it is not questioned. -/
theorem readStringsVector_result (h : Sees s p) (hat : p.At r) {n : BitVec 32} {m : Nat}
    (hd : s.word r = some (n, m)) (val : List (List β)) :
    ((readStringsVector readText (some val)).run p).1.1 = true ↔
      ¬ n.toInt < 0 ∧ n.toNat ≤ p.dataSize - m := by
  obtain ⟨hlen, -, hcur⟩ := h.readInt32_some hat hd
  obtain ⟨bs, hbs, -, hm⟩ := Source.word_eq_some hd
  have hsize : (readInt32.run p).2.dataSize = p.dataSize := (readValue_reads p h.sound).dataSize
  have hle := h.bound hbs
  have hreadable : n.toNat ≤ (readInt32.run p).2.getReadableBytes ↔ n.toNat ≤ p.dataSize - m := by
    rw [le_getReadableBytes, hcur.cursor (by omega), hsize]
    omega
  rw [run_readStringsVector]
  dsimp only
  rw [hlen]
  by_cases hneg : n.toInt < 0
  · rw [if_pos hneg]
    simp [hneg]
  · have hn := toNat_lt_of_toInt_nonneg hneg
    have hmax : n.toNat ≤ vectorMaxSize sizeofString := by
      simp only [vectorMaxSize, ptrdiffMax, sizeofString]
      omega
    rw [if_neg hneg]
    by_cases hroom : n.toNat ≤ (readInt32.run p).2.getReadableBytes
    · rw [if_neg (by omega)]
      exact ⟨fun _ => ⟨hneg, hreadable.1 hroom⟩, fun _ => rfl⟩
    · rw [if_pos (by omega)]
      simp [hneg, ← hreadable, hroom]

theorem readStringsVector_follows (helem : Follows dt readText id) (h : Sees s p) (hat : p.At r)
    (htakes : (dt s).Takes 1 p.dataSize) {xs : List (List β)} {e : Nat}
    (hd : Decoder.counted s (dt s) r = some (xs, e)) (val : List (List β)) :
    ((readStringsVector readText (some val)).run p).1 = (true, some xs) ∧
      Sees s ((readStringsVector readText (some val)).run p).2 ∧
      ((readStringsVector readText (some val)).run p).2.At e := by
  obtain ⟨n, m, hword, hneg, hmany⟩ := Decoder.counted_eq_some hd
  have hn := toNat_lt_of_toInt_nonneg hneg
  obtain ⟨hlen, hsees, hm⟩ := h.readInt32_some hat hword
  have hfits := h.count_fits hat hword (htakes.many hmany)
  have hroom : ¬ (n.toNat > (readInt32.run p).2.getReadableBytes ∨
      vectorMaxSize sizeofString < n.toNat) := by
    simp only [vectorMaxSize, ptrdiffMax, sizeofString]
    omega
  rw [← length_resizeVector val n.toNat []] at hmany
  obtain ⟨hread, hsees', he⟩ := mapM_follows helem hsees hm hmany
  rw [run_readStringsVector]
  dsimp only
  rw [hlen, if_neg hneg, if_neg hroom, hread]
  exact ⟨rfl, hsees', he⟩

end Vectors

end CUtils
