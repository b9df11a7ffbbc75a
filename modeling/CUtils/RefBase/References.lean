import CUtils.RefBase.Effects
import CUtils.RefBase.Heap

/-!
# References and counters

Which smart pointers of a heap refer to which object, and the counters that stand for them. While
calls are on the stack a counter also stands for the references that these calls will take away:
`Counted` says so, and that the calls keep it.
-/

namespace CUtils.RefBases

/-- With the last weak reference the object goes, not with the last strong one. -/
def RefCounter.Lasting (c : RefCounter) : Prop :=
  c.extended = true ∨ c.strong = initialPrimaryValue

/-- No reference is left that would keep the object alive. -/
def RefCounter.Spent (c : RefCounter) : Prop :=
  (c.Lasting → c.weak = 0) ∧ (¬c.Lasting → c.strong = 0)

namespace Heap

open RefCounter

def Exists (h : Heap) : Ref → Prop
  | .sptr l => l ∈ h.sptrs
  | .wptr l => l ∈ h.wptrs

instance (h : Heap) : DecidablePred h.Exists
  | .sptr l => inferInstanceAs (Decidable (l ∈ h.sptrs))
  | .wptr l => inferInstanceAs (Decidable (l ∈ h.wptrs))

def Refers (h : Heap) (x : Nat) : Ref → Prop
  | .sptr l => h.ptr l = some x
  | .wptr l => ∃ c, h.target l = some c ∧ h.object c = x

/-! ## The heaps -/

/-- The `sptr`s that hold `x`, without `a`. -/
def holders (h : Heap) (a : Option Nat) (x : Nat) : Finset Nat :=
  h.sptrs.filter fun l => h.ptr l = some x ∧ a ≠ some l

/-- The `WeakRefCounter`s for `x`. -/
def weaks (h : Heap) (x : Nat) : Finset Nat := h.wrcs.filter fun c => h.object c = x

/-- The `wptr`s that share the `WeakRefCounter` `c`. -/
def sharers (h : Heap) (c : Nat) : Finset Nat := h.wptrs.filter fun l => h.target l = some c

/-- The counters stand for the references without `a` and the calls that are still to be made. -/
structure Counted (h : Heap) (a : Option Nat) (ts : List Call) : Prop where
  strong : ∀ x,
    (h.refs x).strong = initialPrimaryValue ∧
        (h.holders a x).card + ts.count (.decStrongRef x) = 0 ∨
      (h.refs x).strong = (h.holders a x).card + ts.count (.decStrongRef x)
  weak : ∀ x, (h.refs x).weak = (h.holders a x).card + ts.count (.decStrongRef x) +
    ts.count (.decWeakRefCount x) + (h.weaks x).card
  room : ∀ x, (h.refs x).weak + 2 < initialPrimaryValue
  wrcs : ∀ l ∈ h.wptrs, ∀ c, h.target l = some c → c ∈ h.wrcs
  shared : ∀ c ∈ h.wrcs, (h.wrc c).weak = (h.sharers c).card ∧ (h.sharers c).Nonempty
  few : ∀ c, (h.sharers c).card < 2 ^ 31

structure WellFormed (h : Heap) : Prop where
  counted : h.Counted none []
  holds : ∀ l ∈ h.sptrs, ∀ x, h.ptr l = some x → x ∈ h.alive
  kept : ∀ x ∈ h.alive, (h.refs x).extended = false → (h.refs x).strong ≠ 0
  callback : ∀ x, (h.refs x).callback = true ↔ x ∈ h.alive
  cookie : ∀ c ∈ h.wrcs, h.object c ∈ h.alive → (h.wrc c).cookie = true
  members : ∀ x ∈ h.alive, ∀ r ∈ h.members x, h.Exists r
  nodup : ∀ x ∈ h.alive, (h.members x).Nodup
  owner : ∀ x ∈ h.alive, ∀ y ∈ h.alive, ∀ r, r ∈ h.members x → r ∈ h.members y → x = y
  defined : h.undefined = false

/-! ## Counting -/

theorem mem_holders {h : Heap} {a : Option Nat} {x l : Nat} :
    l ∈ h.holders a x ↔ l ∈ h.sptrs ∧ h.ptr l = some x ∧ a ≠ some l :=
  Finset.mem_filter

theorem mem_weaks {h : Heap} {x c : Nat} : c ∈ h.weaks x ↔ c ∈ h.wrcs ∧ h.object c = x :=
  Finset.mem_filter

theorem mem_sharers {h : Heap} {c l : Nat} : l ∈ h.sharers c ↔ l ∈ h.wptrs ∧ h.target l = some c :=
  Finset.mem_filter

theorem card_erase_add (S : Finset Nat) (l : Nat) :
    (S.erase l).card + (if l ∈ S then 1 else 0) = S.card := by
  split_ifs with hl
  · exact Finset.card_erase_add_one hl
  · rw [Finset.erase_eq_of_notMem hl, Nat.add_zero]

@[simp] theorem refs_setRefs_self (h : Heap) (x : Nat) (c : RefCounter) :
    (h.setRefs x c).refs x = c := by
  simp [Heap.setRefs]

theorem refs_setRefs_of_ne (h : Heap) {x y : Nat} (hy : y ≠ x) (c : RefCounter) :
    (h.setRefs x c).refs y = h.refs y := by
  simp [Heap.setRefs, Function.update_of_ne hy]

/-- What holds of the new counter of `x` and of the old ones of the others. -/
@[elab_as_elim]
theorem setRefs_cases {P : Nat → RefCounter → Prop} (h : Heap) (x : Nat) (c : RefCounter) (y : Nat)
    (hx : P x c) (hother : ∀ y, y ≠ x → P y (h.refs y)) : P y ((h.setRefs x c).refs y) := by
  by_cases hy : y = x
  · rw [hy, refs_setRefs_self]
    exact hx
  · rw [refs_setRefs_of_ne h hy]
    exact hother y hy

theorem wrc_setWrc_self (h : Heap) (c : Nat) (w : WeakRefCounter) : (h.setWrc c w).wrc c = w := by
  simp [setWrc]

theorem wrc_setWrc_of_ne (h : Heap) {c d : Nat} (hd : d ≠ c) (w : WeakRefCounter) :
    (h.setWrc c w).wrc d = h.wrc d := by
  simp [setWrc, Function.update_of_ne hd]

theorem holders_setRefs (h : Heap) (x : Nat) (c : RefCounter) (a : Option Nat) (y : Nat) :
    (h.setRefs x c).holders a y = h.holders a y := rfl

theorem weaks_setRefs (h : Heap) (x : Nat) (c : RefCounter) (y : Nat) :
    (h.setRefs x c).weaks y = h.weaks y := rfl

theorem holders_eraseSptr (h : Heap) (a : Option Nat) (x l : Nat) :
    (h.eraseSptr l).holders a x = (h.holders a x).erase l := by
  ext k
  simp only [mem_holders, Finset.mem_erase, eraseSptr]
  tauto

theorem sharers_eraseWptr (h : Heap) (c l : Nat) :
    (h.eraseWptr l).sharers c = (h.sharers c).erase l := by
  ext k
  simp only [mem_sharers, Finset.mem_erase, eraseWptr]
  tauto

theorem sharers_eraseWptr_of_ne {h : Heap} {c d l : Nat} (ht : h.target l = some c) (hd : d ≠ c) :
    (h.eraseWptr l).sharers d = h.sharers d := by
  rw [sharers_eraseWptr]
  apply Finset.erase_eq_of_notMem
  simp [mem_sharers, ht, Ne.symm hd]

theorem weaks_eraseWrc (h : Heap) (x c : Nat) : (h.eraseWrc c).weaks x = (h.weaks x).erase c := by
  ext k
  simp only [mem_weaks, Finset.mem_erase, eraseWrc]
  tauto

namespace Counted

variable {h : Heap} {a : Option Nat} {ts : List Call} {x : Nat}

theorem strong_lt (hc : h.Counted a ts) {x : Nat} (hs : (h.refs x).strong ≠ initialPrimaryValue) :
    0 ≤ (h.refs x).strong ∧ (h.refs x).strong ≤ (h.refs x).weak ∧
      (h.refs x).strong = (h.holders a x).card + ts.count (.decStrongRef x) := by
  have hw := hc.weak x
  rcases hc.strong x with hi | hi
  · exact absurd hi.1 hs
  · omega

theorem strong_pos (hc : h.Counted a ts) {l : Nat} (hl : l ∈ h.holders a x) :
    0 < (h.refs x).strong ∧ (h.refs x).strong ≠ initialPrimaryValue := by
  have hpos : 0 < (h.holders a x).card := Finset.card_pos.2 ⟨l, hl⟩
  have hw := hc.weak x
  have hs := hc.strong x
  have hroom := hc.room x
  omega

/-- On a spent counter, neither references nor calls on the stack count any more. -/
theorem counts_of_spent (hc : h.Counted a ts) {x : Nat} (hs : (h.refs x).Spent) :
    (h.holders a x).card + ts.count (.decStrongRef x) = 0 ∧
      ((h.refs x).Lasting → (h.weaks x).card + ts.count (.decWeakRefCount x) = 0) := by
  have hw := hc.weak x
  by_cases hl : (h.refs x).Lasting
  · have hzero := hs.1 hl
    exact ⟨by omega, fun _ => by omega⟩
  · have hzero := hs.2 hl
    have hst := (hc.strong_lt fun hi => hl (Or.inr hi)).2.2
    exact ⟨by omega, fun hl' => absurd hl' hl⟩

/-- A spent counter has no references of the kind that counts. -/
theorem holders_of_spent (hc : h.Counted a ts) {x : Nat} (hs : (h.refs x).Spent) :
    h.holders a x = ∅ ∧ ((h.refs x).Lasting → h.weaks x = ∅) := by
  obtain ⟨hstrong, hweak⟩ := hc.counts_of_spent hs
  simp only [← Finset.card_eq_zero]
  exact ⟨by omega, fun hl => by have := hweak hl; omega⟩

/-- No call on the stack takes a reference from a spent counter that could end its object again. -/
theorem calls_of_spent (hc : h.Counted a ts) {x : Nat} (hs : (h.refs x).Spent) :
    .decStrongRef x ∉ ts ∧ ((h.refs x).Lasting → .decWeakRefCount x ∉ ts) := by
  obtain ⟨hstrong, hweak⟩ := hc.counts_of_spent hs
  simp only [← List.count_eq_zero]
  exact ⟨by omega, fun hl => by have := hweak hl; omega⟩

theorem weak_pos (hc : h.Counted none ts) {r : Ref} (hr : h.Exists r) (hrefers : h.Refers x r) :
    0 < (h.refs x).weak := by
  have hw := hc.weak x
  cases r with
  | sptr l =>
      have hpos : 0 < (h.holders none x).card :=
        Finset.card_pos.2 ⟨l, mem_holders.2 ⟨hr, hrefers, by simp⟩⟩
      omega
  | wptr l =>
      obtain ⟨c, htarget, hobject⟩ := hrefers
      have hpos : 0 < (h.weaks x).card :=
        Finset.card_pos.2 ⟨c, mem_weaks.2 ⟨hc.wrcs l hr c htarget, hobject⟩⟩
      omega

/-! ### What the calls do to the counters -/

/-- A new counter for `x`, with calls that touch no other. -/
theorem setRefs (hc : h.Counted a ts) {ts' : List Call} {c : RefCounter}
    (hother : ∀ y, y ≠ x → ts'.count (.decStrongRef y) = ts.count (.decStrongRef y) ∧
      ts'.count (.decWeakRefCount y) = ts.count (.decWeakRefCount y))
    (hs : c.strong = initialPrimaryValue ∧
        (h.holders a x).card + ts'.count (.decStrongRef x) = 0 ∨
      c.strong = (h.holders a x).card + ts'.count (.decStrongRef x))
    (hw : c.weak = (h.holders a x).card + ts'.count (.decStrongRef x) +
      ts'.count (.decWeakRefCount x) + (h.weaks x).card)
    (hroom : c.weak ≤ (h.refs x).weak) : (h.setRefs x c).Counted a ts' := by
  constructor
  · intro y
    rw [holders_setRefs]
    refine setRefs_cases h x c y hs ?_
    intro y hy
    rw [(hother y hy).1]
    exact hc.strong y
  · intro y
    rw [holders_setRefs, weaks_setRefs]
    refine setRefs_cases h x c y hw ?_
    intro y hy
    rw [(hother y hy).1, (hother y hy).2]
    exact hc.weak y
  · intro y
    refine setRefs_cases h x c y ?_ fun y _ => hc.room y
    have hlt := hc.room x
    omega
  · exact hc.wrcs
  · exact hc.shared
  · exact hc.few

theorem setRefs_of_eq (hc : h.Counted a ts) {c : RefCounter} (hs : c.strong = (h.refs x).strong)
    (hw : c.weak = (h.refs x).weak) : (h.setRefs x c).Counted a ts := by
  refine hc.setRefs (fun y _ => ⟨rfl, rfl⟩) ?_ ?_ (le_of_eq hw)
  · rw [hs]
    exact hc.strong x
  · rw [hw]
    exact hc.weak x

theorem congr (hc : h.Counted a ts) {ts' : List Call}
    (hs : ∀ x, ts'.count (.decStrongRef x) = ts.count (.decStrongRef x))
    (hw : ∀ x, ts'.count (.decWeakRefCount x) = ts.count (.decWeakRefCount x)) :
    h.Counted a ts' := by
  constructor
  · intro x
    rw [hs x]
    exact hc.strong x
  · intro x
    rw [hs x, hw x]
    exact hc.weak x
  · exact hc.room
  · exact hc.wrcs
  · exact hc.shared
  · exact hc.few

theorem decStrong (hc : h.Counted a (.decStrongRef x :: ts)) :
    (h.refs x).decStrong =
        ((h.refs x).strong, { h.refs x with strong := (h.refs x).strong - 1 }) ∧
      0 < (h.refs x).strong ∧ (h.refs x).strong ≠ initialPrimaryValue := by
  have hw := hc.weak x
  have hroom := hc.room x
  have hs := hc.strong x
  simp only [List.count_cons_self] at hw hs
  have hinit : initialPrimaryValue = 2 ^ 28 := rfl
  have hpos : 0 < (h.refs x).strong ∧ (h.refs x).strong < initialPrimaryValue := by omega
  refine ⟨?_, hpos.1, by omega⟩
  rw [RefCounter.decStrong, if_neg (by omega), if_pos hpos.1, int32_eq (by omega) (by omega)]

theorem decStrongRef (hc : h.Counted a (.decStrongRef x :: ts)) :
    (h.setRefs x (h.refs x).decStrong.2).Counted a (.decWeakRefCount x :: ts) := by
  obtain ⟨heq, hpos, hne⟩ := hc.decStrong
  have hs := (hc.strong x).resolve_left fun hi => hne hi.1
  have hw := hc.weak x
  rw [List.count_cons_self] at hs hw
  rw [List.count_cons_of_ne (by simp)] at hw
  rw [heq]
  refine hc.setRefs ?_ (Or.inr ?_) ?_ (le_refl _)
  · intro y hy
    simp [Ne.symm hy]
  · rw [List.count_cons_of_ne (by simp)]
    simp only
    omega
  · rw [List.count_cons_of_ne (by simp), List.count_cons_self]
    simp only
    omega

theorem decWeak (hc : h.Counted a (.decWeakRefCount x :: ts)) :
    (h.refs x).decWeak = { h.refs x with weak := (h.refs x).weak - 1 } ∧ 0 < (h.refs x).weak := by
  have hw := hc.weak x
  have hroom := hc.room x
  simp only [List.count_cons_self] at hw
  have hinit : initialPrimaryValue = 2 ^ 28 := rfl
  have hpos : 0 < (h.refs x).weak := by omega
  refine ⟨?_, hpos⟩
  rw [RefCounter.decWeak, if_pos hpos, int32_eq (by omega) (by omega)]

theorem decWeakRefCount (hc : h.Counted a (.decWeakRefCount x :: ts)) :
    (h.setRefs x (h.refs x).decWeak).Counted a ts := by
  obtain ⟨heq, hpos⟩ := hc.decWeak
  have hs := hc.strong x
  have hw := hc.weak x
  rw [List.count_cons_of_ne (by simp)] at hs hw
  rw [List.count_cons_self] at hw
  rw [heq]
  refine hc.setRefs ?_ hs ?_ ?_
  · intro y hy
    simp [Ne.symm hy]
  · simp only
    omega
  · simp only
    omega

/-- The holders lose `l`, and a call for it is on the stack. -/
theorem of_holders {h' : Heap} {a' : Option Nat} {l : Nat} (hc : h.Counted a ts)
    (hrefs : h'.refs = h.refs) (hweaks : h'.weaks = h.weaks) (hwptrs : h'.wptrs = h.wptrs)
    (htarget : h'.target = h.target) (hwrcs : h'.wrcs = h.wrcs) (hwrc : h'.wrc = h.wrc)
    (hholders : ∀ x, h'.holders a' x = (h.holders a x).erase l)
    (hl : ∀ x, l ∈ h.holders a x ↔ h.ptr l = some x) :
    h'.Counted a' ((h.ptr l).toList.map .decStrongRef ++ ts) := by
  have hsum : ∀ x, ((h.holders a x).erase l).card +
      ((h.ptr l).toList.map Call.decStrongRef ++ ts).count (.decStrongRef x) =
      (h.holders a x).card + ts.count (.decStrongRef x) := by
    intro x
    rw [← card_erase_add (h.holders a x) l, List.count_append]
    cases hp : h.ptr l with
    | none => simp [hl, hp]
    | some y =>
        by_cases hy : y = x
        · simp [hl, hp, hy]
          omega
        · simp [hl, hp, hy]
  have hweak : ∀ x, ((h.ptr l).toList.map Call.decStrongRef ++ ts).count (.decWeakRefCount x) =
      ts.count (.decWeakRefCount x) := by
    intro x
    cases h.ptr l <;> simp
  have hsharers : h'.sharers = h.sharers := by
    funext c
    simp only [sharers, hwptrs, htarget]
  constructor
  · intro x
    rw [hrefs, hholders, hsum, ← Int.natCast_add, hsum, Int.natCast_add]
    exact hc.strong x
  · intro x
    rw [hrefs, hweaks, hholders, ← Int.natCast_add, hsum, Int.natCast_add, hweak]
    exact hc.weak x
  · rw [hrefs]
    exact hc.room
  · rw [hwptrs, htarget, hwrcs]
    exact hc.wrcs
  · rw [hwrcs, hwrc, hsharers]
    exact hc.shared
  · rw [hsharers]
    exact hc.few

theorem eraseSptr {a l : Nat} (hc : h.Counted (some a) ts) (hl : l ∈ h.sptrs) (hla : l ≠ a) :
    (h.eraseSptr l).Counted (some a) ((h.ptr l).toList.map .decStrongRef ++ ts) := by
  refine hc.of_holders rfl rfl rfl rfl rfl rfl (fun x => holders_eraseSptr h (some a) x l) ?_
  intro x
  simp [mem_holders, hl, Ne.symm hla]

/-- `a` is about to give up its reference. -/
theorem release {a : Nat} (hc : h.Counted none ts) (ha : a ∈ h.sptrs) :
    h.Counted (some a) ((h.ptr a).toList.map .decStrongRef ++ ts) := by
  refine hc.of_holders rfl rfl rfl rfl rfl rfl ?_ ?_
  · intro x
    ext k
    simp only [mem_holders, Finset.mem_erase, ne_eq, Option.some.injEq, reduceCtorEq,
      not_false_eq_true, and_true]
    tauto
  · intro x
    simp [mem_holders, ha]

/-- For what happens to `wptr`s and their counters. -/
theorem of_wptrs {h' : Heap} {ts' : List Call} (hc : h.Counted a ts) (hrefs : h'.refs = h.refs)
    (hholders : h'.holders = h.holders)
    (hstrong : ∀ x, ts'.count (.decStrongRef x) = ts.count (.decStrongRef x))
    (hweak : ∀ x, ts'.count (.decWeakRefCount x) + (h'.weaks x).card =
      ts.count (.decWeakRefCount x) + (h.weaks x).card)
    (hwrcs : ∀ l ∈ h'.wptrs, ∀ c, h'.target l = some c → c ∈ h'.wrcs)
    (hshared : ∀ c ∈ h'.wrcs, (h'.wrc c).weak = (h'.sharers c).card ∧ (h'.sharers c).Nonempty)
    (hfew : ∀ c, (h'.sharers c).card < 2 ^ 31) : h'.Counted a ts' := by
  constructor
  · intro x
    rw [hrefs, hholders, hstrong]
    exact hc.strong x
  · intro x
    have hw := hc.weak x
    have hsum := hweak x
    rw [hrefs, hholders, hstrong]
    omega
  · intro x
    rw [hrefs]
    exact hc.room x
  · exact hwrcs
  · exact hshared
  · exact hfew

theorem eraseWptr_null {l : Nat} (hc : h.Counted a ts) (hl : h.target l = none) :
    (h.eraseWptr l).Counted a ts := by
  have hsharers : ∀ c, (h.eraseWptr l).sharers c = h.sharers c := by
    intro c
    rw [sharers_eraseWptr, Finset.erase_eq_of_notMem (by simp [mem_sharers, hl])]
  refine hc.of_wptrs rfl rfl (fun x => rfl) (fun x => rfl) ?_ ?_ ?_
  · intro k hk c hkc
    exact hc.wrcs k (Finset.mem_of_mem_erase hk) c hkc
  · intro c hmem
    rw [hsharers]
    exact hc.shared c hmem
  · intro c
    rw [hsharers]
    exact hc.few c

theorem few_eraseWptr (hc : h.Counted a ts) (l d : Nat) :
    ((h.eraseWptr l).sharers d).card < 2 ^ 31 := by
  rw [sharers_eraseWptr]
  exact lt_of_le_of_lt (Finset.card_le_card (Finset.erase_subset l _)) (hc.few d)

section

variable {l c : Nat} (hc : h.Counted a ts) (hl : l ∈ h.wptrs) (ht : h.target l = some c)
include hc hl ht

/-- The `wptr` shared its counter with others. -/
theorem dropWrc_more {w : WeakRefCounter} (hw : w.weak = (h.wrc c).weak - 1) (hone : w.weak ≠ 0) :
    ((h.eraseWptr l).setWrc c w).Counted a ts := by
  have hwrc : c ∈ h.wrcs := hc.wrcs l hl c ht
  have hcard := (hc.shared c hwrc).1
  have herase : ((h.sharers c).erase l).card + 1 = (h.sharers c).card :=
    Finset.card_erase_add_one (mem_sharers.2 ⟨hl, ht⟩)
  refine hc.of_wptrs rfl rfl (fun x => rfl) (fun x => rfl) ?_ ?_ (hc.few_eraseWptr l)
  · intro k hk d hkd
    exact hc.wrcs k (Finset.mem_of_mem_erase hk) d hkd
  · intro d hd
    change (((h.eraseWptr l).setWrc c w).wrc d).weak = ((h.eraseWptr l).sharers d).card ∧
      ((h.eraseWptr l).sharers d).Nonempty
    by_cases hdc : d = c
    · have hpos : 0 < ((h.sharers c).erase l).card := by omega
      rw [hdc, wrc_setWrc_self, sharers_eraseWptr]
      exact ⟨by omega, Finset.card_pos.1 hpos⟩
    · rw [wrc_setWrc_of_ne _ hdc, sharers_eraseWptr_of_ne ht hdc]
      exact hc.shared d hd

/-- With the last `wptr` its counter goes, and a call for the object is on the stack. -/
theorem dropWrc_last {w : WeakRefCounter} (hone : (h.wrc c).weak = 1) :
    (((h.eraseWptr l).setWrc c w).eraseWrc c).Counted a
      ([.decWeakRefCount (h.object c), .decRefCount (h.object c)] ++ ts) := by
  have hwrc : c ∈ h.wrcs := hc.wrcs l hl c ht
  have hcard := (hc.shared c hwrc).1
  have herase : ((h.sharers c).erase l).card + 1 = (h.sharers c).card :=
    Finset.card_erase_add_one (mem_sharers.2 ⟨hl, ht⟩)
  have hempty : (h.sharers c).erase l = ∅ := by
    rw [← Finset.card_eq_zero]
    omega
  refine hc.of_wptrs rfl rfl (fun x => by simp) ?_ ?_ ?_ (hc.few_eraseWptr l)
  · intro x
    have hsum := card_erase_add (h.weaks x) c
    have hmem : c ∈ h.weaks x ↔ h.object c = x := by simp [mem_weaks, hwrc]
    rw [weaks_eraseWrc]
    change _ + ((h.weaks x).erase c).card = _
    by_cases hx : h.object c = x
    · rw [if_pos (hmem.2 hx)] at hsum
      simp only [List.cons_append, List.nil_append, hx, List.count_cons_self,
        List.count_cons_of_ne (by simp : Call.decRefCount x ≠ Call.decWeakRefCount x)]
      omega
    · rw [if_neg (fun h => hx (hmem.1 h))] at hsum
      simp only [List.cons_append, List.nil_append, List.count_cons, beq_iff_eq, reduceCtorEq,
        Call.decWeakRefCount.injEq, hx, if_false]
      omega
  · intro k hk d hkd
    obtain ⟨hkl, hk'⟩ := Finset.mem_erase.1 hk
    refine Finset.mem_erase.2 ⟨?_, hc.wrcs k hk' d hkd⟩
    rintro rfl
    have hmem : k ∈ (h.sharers d).erase l :=
      Finset.mem_erase.2 ⟨hkl, mem_sharers.2 ⟨hk', hkd⟩⟩
    simp [hempty] at hmem
  · intro d hd
    obtain ⟨hdc, hd'⟩ := Finset.mem_erase.1 hd
    change (((h.eraseWptr l).setWrc c w).wrc d).weak = ((h.eraseWptr l).sharers d).card ∧
      ((h.eraseWptr l).sharers d).Nonempty
    rw [wrc_setWrc_of_ne _ hdc, sharers_eraseWptr_of_ne ht hdc]
    exact hc.shared d hd'

theorem dropWrc : ((h.eraseWptr l).dropWrc c).1.Counted a (((h.eraseWptr l).dropWrc c).2 ++ ts) := by
  have hfew := hc.few c
  obtain ⟨hcard, hpos⟩ := hc.shared c (hc.wrcs l hl c ht)
  have hpos := Finset.card_pos.2 hpos
  unfold Heap.dropWrc
  simp only
  split_ifs with hlast
  · exact hc.dropWrc_last hl ht hlast
  · have hne : (h.wrc c).weak ≠ 1 := hlast
    have hint : int32 ((h.wrc c).weak - 1) = (h.wrc c).weak - 1 := int32_eq (by omega) (by omega)
    refine hc.dropWrc_more hl ht hint ?_
    change int32 ((h.wrc c).weak - 1) ≠ 0
    omega

end

end Counted

end Heap

end CUtils.RefBases
