import CUtils.Lib.ByteMemory

/-!
# Decoding from a byte source

A `Source` is something bytes can be asked of by position: it has the `n` bytes at a position or
it has not, and of bytes it has it also has every part. A `Decoder` turns the bytes at a position
into a value and the position behind it.

* A decoder inverts an encoding when it takes `enc v`, wherever it stands, to `v` and the position
  behind it; `many_of_has` is the rule for a sequence of encodings.
* A source that has more from some position on decodes more there, and to the same values
  (`Source.Le`, `Decoder.Le`).
* `Takes` bounds what a decoder needs from below, and with it how many values can be announced.
-/

namespace ByteMemory

structure Source where
  piece : Nat → Nat → Option (List UInt8)
  length_piece : ∀ {r n bs}, piece r n = some bs → bs.length = n
  split : ∀ {r a b bs}, piece r (a + b) = some bs →
    piece r a = some (bs.take a) ∧ piece (r + a) b = some (bs.drop a)

abbrev Decoder (α : Type) := Nat → Option (α × Nat)

/-- What `d` decodes from position `c` on, `d'` decodes to the same value, and so does what is
behind it. -/
def Decoder.Le {α : Type} (c : Nat) (d d' : Decoder α) : Prop :=
  ∀ ⦃r x⦄, c ≤ r → d r = some x → d' r = some x ∧ c ≤ x.2

namespace Source

variable {α : Type} (s : Source) {t : Source} {r : Nat}

/-- The bytes `bs` stand at position `r`. -/
def Has (r : Nat) (bs : List UInt8) : Prop := s.piece r bs.length = some bs

/-- From position `c` on, `t` has every piece that `s` has. -/
def Le (c : Nat) (s t : Source) : Prop :=
  ∀ ⦃r n bs⦄, c ≤ r → s.piece r n = some bs → t.piece r n = some bs

variable {s}

theorem has_append {xs ys : List UInt8} (h : s.Has r (xs ++ ys)) :
    s.Has r xs ∧ s.Has (r + xs.length) ys := by
  unfold Has at h
  rw [List.length_append] at h
  obtain ⟨hleft, hright⟩ := s.split h
  rw [List.take_left] at hleft
  rw [List.drop_left] at hright
  exact ⟨hleft, hright⟩

variable (s)

/-- A value of fixed width. -/
def word [Scalar α] : Decoder α :=
  fun r => (s.piece r (Scalar.width α)).map fun bs => (Scalar.decode bs, r + Scalar.width α)

variable {s}

theorem word_of_has [Scalar α] {v : α} (h : s.Has r (Scalar.encode v)) :
    s.word r = some (v, r + Scalar.width α) := by
  rw [Has, Scalar.length_encode] at h
  rw [word, h, Option.map_some, Scalar.decode_encode]

theorem word_eq_some [Scalar α] {v : α} {r' : Nat} (h : s.word r = some (v, r')) :
    ∃ bs, s.piece r (Scalar.width α) = some bs ∧ Scalar.decode bs = v ∧
      r' = r + Scalar.width α := by
  obtain ⟨bs, hbs, heq⟩ := Option.map_eq_some_iff.1 h
  rw [Prod.mk.injEq] at heq
  exact ⟨bs, hbs, heq.1, heq.2.symm⟩

theorem Le.word [Scalar α] {c : Nat} (h : s.Le c t) : Decoder.Le c (s.word : Decoder α) t.word := by
  intro r x hr hx
  obtain ⟨bs, hbs, rfl⟩ := Option.map_eq_some_iff.1 hx
  rw [Source.word, h hr hbs, Option.map_some]
  exact ⟨rfl, Nat.le_add_right_of_le hr⟩

end Source

namespace Decoder

variable {α β : Type} {d d' : Decoder α} {s t : Source} {c n r r' : Nat}

/-! ## Conversions -/

/-- Decode, then convert the value. -/
def map (f : α → β) (d : Decoder α) : Decoder β := fun r => (d r).map fun x => (f x.1, x.2)

theorem map_eq_some {f : α → β} {y : β} (h : d.map f r = some (y, r')) :
    ∃ x, d r = some (x, r') ∧ f x = y := by
  obtain ⟨⟨x, m⟩, hd, heq⟩ := Option.map_eq_some_iff.1 h
  rw [Prod.mk.injEq] at heq
  exact ⟨x, heq.2 ▸ hd, heq.1⟩

theorem map_of {f : α → β} {x : α} (h : d r = some (x, r')) : d.map f r = some (f x, r') := by
  rw [map, h, Option.map_some]

theorem map_eq_none {f : α → β} : d.map f r = none ↔ d r = none := Option.map_eq_none_iff

theorem Le.map (h : d.Le c d') (f : α → β) : (d.map f).Le c (d'.map f) := by
  intro r y hr hy
  obtain ⟨x, hx, hfx⟩ := map_eq_some hy
  obtain ⟨hd, hnext⟩ := h hr hx
  rw [Decoder.map, hd, Option.map_some]
  exact ⟨congrArg some (Prod.ext hfx rfl), hnext⟩

/-! ## Sequences -/

/-- `n` values, one behind the other. -/
def many (d : Decoder α) : Nat → Decoder (List α)
  | 0, r => some ([], r)
  | n + 1, r => (d r).bind fun x => (many d n x.2).map fun xs => (x.1 :: xs.1, xs.2)

theorem many_succ_eq_some {vs : List α} (h : d.many (n + 1) r = some (vs, r')) :
    ∃ v ws m, d r = some (v, m) ∧ d.many n m = some (ws, r') ∧ vs = v :: ws := by
  obtain ⟨⟨v, m⟩, hd, hrest⟩ := Option.bind_eq_some_iff.1 h
  obtain ⟨⟨ws, m'⟩, hmany, heq⟩ := Option.map_eq_some_iff.1 hrest
  rw [Prod.mk.injEq] at heq
  exact ⟨v, ws, m, hd, heq.2 ▸ hmany, heq.1.symm⟩

theorem many_succ_eq_none (h : d.many (n + 1) r = none) :
    d r = none ∨ ∃ v m, d r = some (v, m) ∧ d.many n m = none := by
  cases hd : d r with
  | none => exact Or.inl rfl
  | some x =>
      rw [many, hd, Option.bind_some, Option.map_eq_none_iff] at h
      exact Or.inr ⟨x.1, x.2, rfl, h⟩

theorem length_many {vs : List α} (h : d.many n r = some (vs, r')) : vs.length = n := by
  induction n generalizing r vs with
  | zero =>
      rw [← (Prod.mk.inj (Option.some.inj h)).1]
      rfl
  | succ n ih =>
      obtain ⟨v, ws, m, -, hrest, rfl⟩ := many_succ_eq_some h
      rw [List.length_cons, ih hrest]

theorem Le.many (h : d.Le c d') (n : Nat) : (d.many n).Le c (d'.many n) := by
  induction n with
  | zero =>
      intro r x hr hx
      exact ⟨hx, Option.some.inj hx ▸ hr⟩
  | succ n ih =>
      intro r x hr hx
      obtain ⟨v, ws, m, hfirst, hrest, hvs⟩ := many_succ_eq_some hx
      obtain ⟨hd, hm⟩ := h hr hfirst
      obtain ⟨hmany, hnext⟩ := ih hm hrest
      rw [Decoder.many, hd, Option.bind_some, hmany, Option.map_some]
      exact ⟨congrArg some (Prod.ext hvs.symm rfl), hnext⟩

/-- Decoding inverts a sequence of encodings if it inverts each of them. -/
theorem many_of_has {enc : α → List UInt8} {vs : List α}
    (hd : ∀ v ∈ vs, ∀ r, s.Has r (enc v) → d r = some (v, r + (enc v).length))
    (h : s.Has r (vs.flatMap enc)) :
    d.many vs.length r = some (vs, r + (vs.flatMap enc).length) := by
  induction vs generalizing r with
  | nil => rfl
  | cons v vs ih =>
      rw [List.flatMap_cons] at h ⊢
      obtain ⟨hhead, htail⟩ := Source.has_append h
      have hfirst := hd v (by simp) r hhead
      have hrest := ih (fun x hx => hd x (by simp [hx])) htail
      rw [List.length_cons, many, hfirst, Option.bind_some, hrest, Option.map_some,
        List.length_append, Nat.add_assoc]

/-- Every value takes at least `unit` bytes, and these lie below `bound`. -/
def Takes (d : Decoder α) (unit bound : Nat) : Prop :=
  ∀ ⦃r x r'⦄, d r = some (x, r') → r + unit ≤ bound ∧ r + unit ≤ r'

theorem Takes.map {unit bound : Nat} {f : α → β} (h : d.Takes unit bound) :
    (d.map f).Takes unit bound := by
  intro r y r' hy
  obtain ⟨x, hx, -⟩ := map_eq_some hy
  exact h hx

theorem Takes.many {unit bound : Nat} (h : d.Takes unit bound) {xs : List α}
    (hd : d.many n r = some (xs, r')) : n = 0 ∨ r + n * unit ≤ bound := by
  induction n generalizing r xs with
  | zero => exact Or.inl rfl
  | succ n ih =>
      obtain ⟨v, ws, m, hfirst, hrest, -⟩ := many_succ_eq_some hd
      obtain ⟨hbound, hnext⟩ := h hfirst
      refine Or.inr ?_
      rw [Nat.succ_mul]
      rcases ih hrest with rfl | hle
      · omega
      · omega

/-- A signed 32-bit count and as many values. -/
def counted (s : Source) (d : Decoder α) : Decoder (List α) := fun r =>
  (s.word r).bind fun (x : BitVec 32 × Nat) => if x.1.toInt < 0 then none else d.many x.1.toNat x.2

theorem counted_eq_some {xs : List α} (h : counted s d r = some (xs, r')) :
    ∃ (c : BitVec 32) (m : Nat), s.word r = some (c, m) ∧ ¬ c.toInt < 0 ∧
      d.many c.toNat m = some (xs, r') := by
  obtain ⟨⟨c, m⟩, hc, hrest⟩ := Option.bind_eq_some_iff.1 h
  obtain ⟨hneg, hmany⟩ := Option.ite_none_left_eq_some.1 hrest
  exact ⟨c, m, hc, hneg, hmany⟩

theorem counted_of {xs : List α} {k : BitVec 32} {m : Nat} (hword : s.word r = some (k, m))
    (hneg : ¬ k.toInt < 0) (hmany : d.many k.toNat m = some (xs, r')) :
    counted s d r = some (xs, r') := by
  rw [counted, hword, Option.bind_some, if_neg hneg]
  exact hmany

theorem Le.counted (hs : s.Le c t) (h : d.Le c d') :
    (counted s d).Le c (Decoder.counted t d') := by
  intro r x hr hx
  obtain ⟨k, m, hword, hneg, hmany⟩ := counted_eq_some hx
  obtain ⟨hcount, hm⟩ := hs.word hr hword
  obtain ⟨hrest, hnext⟩ := h.many _ hm hmany
  exact ⟨counted_of hcount hneg hrest, hnext⟩

end Decoder

end ByteMemory
