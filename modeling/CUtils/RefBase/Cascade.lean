import CUtils.RefBase.References

/-!
# What a release destroys

`DecStrongRef` on the object that the `sptr` `a` holds may delete it, with it the members it has,
with them what they alone kept, and so on. `Doomed` says which objects these are, by looking at the
heap before the call: an object with references all of which, except `a`, are members of doomed
objects. References that count are the `sptr`s and, if the lifetime is extended or there never was
an `sptr`, the `wptr`s.

`Inv` is the invariant of the calls, with the heap `s` at the start: the counters stand for the
references that are left, the destructors on the stack are those of the members that dead objects
still have, and whatever has died was doomed. It holds as long as `a` itself exists: the call leaves
`refs_` of `a` as it is, so a destructor of `a` would release the object a second time.
-/

namespace CUtils.RefBases

open CallStack

namespace Heap

/-- The reference counts for the life of `x`. -/
def Keeps (h : Heap) (x : Nat) (r : Ref) : Prop :=
  h.Exists r ∧ h.Refers x r ∧ ((h.refs x).Lasting ∨ ∃ l, r = .sptr l)

inductive Doomed (h : Heap) (a : Nat) : Nat → Prop
  | intro {x : Nat} (halive : x ∈ h.alive) (hkept : ∃ r, h.Keeps x r)
      (howned : ∀ r, h.Keeps x r → r ≠ .sptr a → ∃ y ∈ h.alive, r ∈ h.members y)
      (hdoomed : ∀ r, h.Keeps x r → r ≠ .sptr a → ∀ y ∈ h.alive, r ∈ h.members y → Doomed h a y) :
      Doomed h a x

/-- The smart pointer is a member of a doomed object. -/
def Lost (h : Heap) (a : Nat) (r : Ref) : Prop := ∃ x ∈ h.alive, r ∈ h.members x ∧ h.Doomed a x

/-- Where `a` is null nothing is doomed. -/
theorem Doomed.holds {h : Heap} {a x : Nat} (hx : h.Doomed a x) : h.ptr a ≠ none := by
  induction hx with
  | intro halive hkept howned hdoomed ih =>
      obtain ⟨r, hr⟩ := hkept
      by_cases hra : r = .sptr a
      · subst hra
        intro hnull
        have hrefers : h.ptr a = some _ := hr.2.1
        simp [hnull] at hrefers
      · obtain ⟨y, hy, hmem⟩ := howned r hr hra
        exact ih r hr hra y hy hmem

/-! ## Calls only take away -/

structure Shrinks (s h : Heap) : Prop where
  ptr : h.ptr = s.ptr
  target : h.target = s.target
  object : h.object = s.object
  members : h.members = s.members
  alive : h.alive ⊆ s.alive
  sptrs : h.sptrs ⊆ s.sptrs
  wptrs : h.wptrs ⊆ s.wptrs
  wrcs : h.wrcs ⊆ s.wrcs
  extended : ∀ x, (h.refs x).extended = (s.refs x).extended
  cookie : ∀ c, (h.wrc c).cookie = (s.wrc c).cookie

theorem Shrinks.refl (h : Heap) : Shrinks h h :=
  ⟨rfl, rfl, rfl, rfl, subset_rfl, subset_rfl, subset_rfl, subset_rfl, fun _ => rfl, fun _ => rfl⟩

theorem Shrinks.trans {s h h' : Heap} (h₁ : Shrinks s h) (h₂ : Shrinks h h') : Shrinks s h' where
  ptr := h₂.ptr.trans h₁.ptr
  target := h₂.target.trans h₁.target
  object := h₂.object.trans h₁.object
  members := h₂.members.trans h₁.members
  alive := h₂.alive.trans h₁.alive
  sptrs := h₂.sptrs.trans h₁.sptrs
  wptrs := h₂.wptrs.trans h₁.wptrs
  wrcs := h₂.wrcs.trans h₁.wrcs
  extended x := (h₂.extended x).trans (h₁.extended x)
  cookie c := (h₂.cookie c).trans (h₁.cookie c)

theorem Shrinks.exists_of_exists {s h : Heap} (hs : Shrinks s h) {r : Ref} (hr : h.Exists r) :
    s.Exists r := by
  cases r with
  | sptr l => exact hs.sptrs hr
  | wptr l => exact hs.wptrs hr

theorem shrinks_setRefs (h : Heap) {x : Nat} {c : RefCounter}
    (hc : c.extended = (h.refs x).extended) : Shrinks h (h.setRefs x c) := by
  refine { Shrinks.refl h with extended := ?_ }
  intro y
  exact setRefs_cases h x c y hc fun y _ => rfl

theorem shrinks_setWrc (h : Heap) {c : Nat} {w : WeakRefCounter}
    (hw : w.cookie = (h.wrc c).cookie) : Shrinks h (h.setWrc c w) := by
  refine { Shrinks.refl h with cookie := ?_ }
  intro d
  by_cases hd : d = c
  · rw [hd, wrc_setWrc_self, hw]
  · rw [wrc_setWrc_of_ne h hd]

theorem shrinks_eraseObject (h : Heap) (x : Nat) : Shrinks h (h.eraseObject x) :=
  { Shrinks.refl h with alive := Finset.erase_subset x h.alive }

theorem shrinks_eraseSptr (h : Heap) (l : Nat) : Shrinks h (h.eraseSptr l) :=
  { Shrinks.refl h with sptrs := Finset.erase_subset l h.sptrs }

theorem shrinks_eraseWptr (h : Heap) (l : Nat) : Shrinks h (h.eraseWptr l) :=
  { Shrinks.refl h with wptrs := Finset.erase_subset l h.wptrs }

theorem shrinks_eraseWrc (h : Heap) (c : Nat) : Shrinks h (h.eraseWrc c) :=
  { Shrinks.refl h with wrcs := Finset.erase_subset c h.wrcs }

theorem shrinks_undefined (h : Heap) : Shrinks h { h with undefined := true } :=
  { Shrinks.refl h with }

theorem extended_decRef (c : RefCounter) : c.decRef.extended = c.extended := by
  unfold RefCounter.decRef
  split <;> rfl

theorem extended_decStrong (c : RefCounter) : c.decStrong.2.extended = c.extended := by
  unfold RefCounter.decStrong
  split_ifs <;> rfl

theorem extended_decWeak (c : RefCounter) : c.decWeak.extended = c.extended := by
  unfold RefCounter.decWeak
  split <;> rfl

theorem extended_leave (c : RefCounter) : c.leave.extended = c.extended := by
  unfold RefCounter.leave
  simp only
  split
  · rw [extended_decRef]
  · rfl

theorem shrinks_callback (h : Heap) (x : Nat) : Shrinks h (h.callback x).1 := by
  unfold callback
  split_ifs
  · exact shrinks_eraseObject h x
  · exact shrinks_undefined h
  · exact Shrinks.refl h

theorem shrinks_step (h : Heap) (t : Call) : Shrinks h (h.step t).1 := by
  cases t with
  | drop r =>
      cases r with
      | sptr l =>
          simp only [step, dropSptr]
          split_ifs
          · exact shrinks_eraseSptr h l
          · exact shrinks_undefined h
      | wptr l =>
          simp only [step, dropWptr]
          split_ifs
          · cases h.target l with
            | none => exact shrinks_eraseWptr h l
            | some c =>
                simp only [dropWrc]
                split_ifs
                · refine ((shrinks_eraseWptr h l).trans (shrinks_setWrc _ ?_)).trans
                    (shrinks_eraseWrc _ c)
                  rfl
                · exact (shrinks_eraseWptr h l).trans (shrinks_setWrc _ rfl)
          · exact shrinks_undefined h
  | decStrongRef x =>
      simp only [step, decStrongRef]
      have hset := shrinks_setRefs h (extended_decStrong (h.refs x))
      split_ifs
      · exact hset.trans (shrinks_callback _ x)
      · exact hset
      · exact shrinks_undefined h
  | decWeakRefCount x =>
      simp only [step, decWeakRefCount]
      have hset := shrinks_setRefs h (extended_decWeak (h.refs x))
      split_ifs
      · exact hset
      · exact hset.trans (shrinks_callback _ x)
      · exact hset.trans (shrinks_callback _ x)
      · refine hset.trans (shrinks_setRefs _ ?_)
        rw [refs_setRefs_self, extended_decRef]
  | destructor x => exact shrinks_setRefs h (extended_leave _)
  | decRefCount x => exact shrinks_setRefs h (extended_decRef _)

theorem shrinks_run (h : Heap) (ts : List Call) : Shrinks h (calls.run h ts) := by
  induction h, ts using Machine.run.induct calls with
  | case1 h =>
      rw [Machine.run_nil]
      exact Shrinks.refl h
  | case2 h t ts ih =>
      rw [Machine.run_cons]
      exact (shrinks_step h t).trans ih

/-! ## The invariant -/

/-- `r` was a member of an object that has died. -/
def Fallen (s h : Heap) (r : Ref) : Prop := ∃ x ∈ s.alive, x ∉ h.alive ∧ r ∈ s.members x

/-- The smart pointers that are to be destroyed, and those that have been. -/
structure Dropping (s h : Heap) (ts : List Call) : Prop where
  pending : ∀ r, .drop r ∈ ts ↔ h.Exists r ∧ Fallen s h r
  once : ∀ r, ts.count (.drop r) ≤ 1
  gone : ∀ r, s.Exists r → ¬h.Exists r → Fallen s h r

/-- The objects that have died, and those that may. -/
structure Dying (s : Heap) (a : Nat) (h : Heap) (ts : List Call) : Prop where
  never : ∀ x, (h.refs x).strong = initialPrimaryValue ↔ (s.refs x).strong = initialPrimaryValue
  spent : ∀ x ∈ s.alive, x ∉ h.alive → (h.refs x).Spent
  doomed : ∀ x ∈ s.alive, x ∉ h.alive → s.Doomed a x
  callback : ∀ x, (h.refs x).callback = true → x ∈ h.alive ∨ .destructor x ∈ ts
  called : ∀ x ∈ h.alive, (h.refs x).callback = true
  destructor : ∀ x, .destructor x ∈ ts → x ∈ s.alive ∧ x ∉ h.alive
  strong : ∀ x, .decStrongRef x ∈ ts → ∃ l, s.Exists (.sptr l) ∧ s.Refers x (.sptr l)
  weak : ∀ x, .decWeakRefCount x ∈ ts → ∃ r, s.Exists r ∧ s.Refers x r

structure Core (s : Heap) (a : Nat) (h : Heap) (ts : List Call) : Prop where
  counted : h.Counted (some a) ts
  shrinks : Shrinks s h
  dropping : Dropping s h ts
  dying : Dying s a h ts
  defined : h.undefined = false

/-- An object that no reference keeps had none from the start. -/
def Kept (s h : Heap) : Prop := ∀ x ∈ h.alive, (h.refs x).Spent → (s.refs x).weak = 0

structure Inv (s : Heap) (a : Nat) (h : Heap) (ts : List Call) : Prop where
  core : Core s a h ts
  kept : Kept s h

theorem Dropping.congr {s h h' : Heap} {ts ts' : List Call} (hd : Dropping s h ts)
    (halive : h'.alive = h.alive) (hsptrs : h'.sptrs = h.sptrs) (hwptrs : h'.wptrs = h.wptrs)
    (hcount : ∀ r, ts'.count (.drop r) = ts.count (.drop r)) : Dropping s h' ts' := by
  have hexists : h'.Exists = h.Exists := by
    funext r
    cases r with
    | sptr l => simp only [Exists, hsptrs]
    | wptr l => simp only [Exists, hwptrs]
  have hfallen : Fallen s h' = Fallen s h := by
    funext r
    simp only [Fallen, halive]
  constructor
  · intro r
    rw [hexists, hfallen, ← hd.pending r, ← List.count_pos_iff, hcount, List.count_pos_iff]
  · intro r
    rw [hcount]
    exact hd.once r
  · rw [hexists, hfallen]
    exact hd.gone

/-- A call that the destructor of `r` may make. -/
def Follows (s : Heap) (r : Ref) (t : Call) : Prop :=
  ∃ x, s.Refers x r ∧
    ((t = .decStrongRef x ∧ ∃ l, r = .sptr l) ∨ t = .decWeakRefCount x ∨ t = .decRefCount x)

theorem Follows.ne_drop {s : Heap} {r r' : Ref} (hf : Follows s r (.drop r')) : False := by
  obtain ⟨x, -, hf⟩ := hf
  simp at hf

theorem Follows.ne_destructor {s : Heap} {r : Ref} {x : Nat} (hf : Follows s r (.destructor x)) :
    False := by
  obtain ⟨y, -, hf⟩ := hf
  simp at hf

theorem Dropping.drop {s h h' : Heap} {r : Ref} {news ts : List Call}
    (hd : Dropping s h (.drop r :: ts)) (halive : h'.alive = h.alive)
    (hexists : ∀ r', h'.Exists r' ↔ r' ≠ r ∧ h.Exists r') (hnews : ∀ t ∈ news, Follows s r t) :
    Dropping s h' (news ++ ts) := by
  have hfallen : Fallen s h' = Fallen s h := by
    funext r'
    simp only [Fallen, halive]
  have hdrops : ∀ r', .drop r' ∉ news := fun r' hmem => (hnews _ hmem).ne_drop
  have honce : .drop r ∉ ts := by
    intro hmem
    have hle := hd.once r
    have hpos := List.count_pos_iff.2 hmem
    rw [List.count_cons_self] at hle
    omega
  constructor
  · intro r'
    rw [hfallen, hexists, List.mem_append]
    have hpending := hd.pending r'
    by_cases hr' : r' = r
    · simp [hr', hdrops, honce]
    · rw [List.mem_cons] at hpending
      simpa [hr', hdrops] using hpending
  · intro r'
    rw [List.count_append, List.count_eq_zero.2 (hdrops r'), Nat.zero_add]
    exact le_trans ((List.sublist_cons_self _ ts).count_le _) (hd.once r')
  · intro r' hs hgone
    rw [hfallen]
    by_cases hr' : r' = r
    · rw [hr']
      exact ((hd.pending r).1 (by simp)).2
    · exact hd.gone r' hs fun hex => hgone ((hexists r').2 ⟨hr', hex⟩)

theorem Dying.drop {s h h' : Heap} {a : Nat} {r : Ref} {news ts : List Call}
    (hd : Dying s a h (.drop r :: ts)) (hrefs : h'.refs = h.refs) (halive : h'.alive = h.alive)
    (hr : s.Exists r) (hnews : ∀ t ∈ news, Follows s r t) : Dying s a h' (news ++ ts) := by
  have hdestructor : ∀ x, .destructor x ∈ news ++ ts ↔ .destructor x ∈ Call.drop r :: ts := by
    intro x
    have hnot : .destructor x ∉ news := fun hmem => (hnews _ hmem).ne_destructor
    simp [hnot]
  constructor
  · rw [hrefs]
    exact hd.never
  · rw [hrefs, halive]
    exact hd.spent
  · rw [halive]
    exact hd.doomed
  · intro x hcb
    rw [hrefs] at hcb
    rw [halive, hdestructor]
    exact hd.callback x hcb
  · rw [hrefs, halive]
    exact hd.called
  · intro x hx
    rw [halive]
    exact hd.destructor x ((hdestructor x).1 hx)
  · intro x hx
    rcases List.mem_append.1 hx with hx | hx
    · obtain ⟨y, hrefers, hy⟩ := hnews _ hx
      have hy : x = y ∧ ∃ l, r = .sptr l := by simpa using hy
      obtain ⟨rfl, l, rfl⟩ := hy
      exact ⟨l, hr, hrefers⟩
    · exact hd.strong x (by simp [hx])
  · intro x hx
    rcases List.mem_append.1 hx with hx | hx
    · obtain ⟨y, hrefers, hy⟩ := hnews _ hx
      have hy : x = y := by simpa using hy
      rw [hy]
      exact ⟨r, hr, hrefers⟩
    · exact hd.weak x (by simp [hx])

theorem fallen_eraseObject {s h : Heap} {x : Nat} (hxs : x ∈ s.alive) (r : Ref) :
    Fallen s (h.eraseObject x) r ↔ Fallen s h r ∨ r ∈ s.members x := by
  constructor
  · rintro ⟨y, hy, hdead, hmem⟩
    by_cases hyx : y = x
    · exact Or.inr (hyx ▸ hmem)
    · refine Or.inl ⟨y, hy, fun hmem' => hdead ?_, hmem⟩
      exact Finset.mem_erase.2 ⟨hyx, hmem'⟩
  · rintro (⟨y, hy, hdead, hmem⟩ | hmem)
    · exact ⟨y, hy, fun hmem' => hdead (Finset.mem_of_mem_erase hmem'), hmem⟩
    · exact ⟨x, hxs, Finset.notMem_erase x h.alive, hmem⟩

theorem Dropping.eraseObject {s h : Heap} {ts : List Call} {x : Nat} (hd : Dropping s h ts)
    (hw : s.WellFormed) (hxs : x ∈ s.alive) (hx : x ∈ h.alive) :
    Dropping s (h.eraseObject x) ((s.members x).map .drop ++ [.destructor x] ++ ts) := by
  -- no other dead object has the members of `x`, so they are still there
  have hnot : ∀ r ∈ s.members x, ¬Fallen s h r := by
    rintro r hr ⟨y, hy, hdead, hmem⟩
    rw [hw.owner y hy x hxs r hmem hr] at hdead
    exact hdead hx
  have hexists : ∀ r ∈ s.members x, h.Exists r := by
    intro r hr
    by_contra hgone
    exact hnot r hr (hd.gone r (hw.members x hxs r hr) hgone)
  have hinj : Function.Injective Call.drop := fun r r' heq => Call.drop.inj heq
  constructor
  · intro r
    have hmem : .drop r ∈ (s.members x).map Call.drop ++ [.destructor x] ++ ts ↔
        r ∈ s.members x ∨ .drop r ∈ ts := by
      simp
    rw [hmem, fallen_eraseObject hxs, hd.pending r]
    constructor
    · rintro (hr | ⟨hr, hfallen⟩)
      · exact ⟨hexists r hr, Or.inr hr⟩
      · exact ⟨hr, Or.inl hfallen⟩
    · rintro ⟨hr, hfallen | hfallen⟩
      · exact Or.inr ⟨hr, hfallen⟩
      · exact Or.inl hfallen
  · intro r
    rw [List.count_append, List.count_append, List.count_map_of_injective _ _ hinj]
    have hzero : [Call.destructor x].count (.drop r) = 0 := by simp
    by_cases hr : r ∈ s.members x
    · have hts : .drop r ∉ ts := fun hmem => hnot r hr ((hd.pending r).1 hmem).2
      rw [hzero, List.count_eq_zero.2 hts]
      exact List.nodup_iff_count_le_one.1 (hw.nodup x hxs) r
    · rw [hzero, List.count_eq_zero.2 hr]
      have := hd.once r
      omega
  · intro r hr hgone
    exact (fallen_eraseObject hxs r).2 (Or.inl (hd.gone r hr hgone))

theorem Dying.eraseObject {s h : Heap} {a x : Nat} {ts : List Call} {rs : List Ref}
    (hd : Dying s a h ts) (hxs : x ∈ s.alive) (hs : (h.refs x).Spent) (hdoomed : s.Doomed a x) :
    Dying s a (h.eraseObject x) (rs.map .drop ++ [.destructor x] ++ ts) := by
  have hdead : ∀ y, y ∉ (h.eraseObject x).alive → y = x ∨ y ∉ h.alive := by
    intro y hy
    by_cases hyx : y = x
    · exact Or.inl hyx
    · exact Or.inr fun hmem => hy (Finset.mem_erase.2 ⟨hyx, hmem⟩)
  constructor
  · exact hd.never
  · intro y hy hy'
    rcases hdead y hy' with rfl | hy'
    · exact hs
    · exact hd.spent y hy hy'
  · intro y hy hy'
    rcases hdead y hy' with rfl | hy'
    · exact hdoomed
    · exact hd.doomed y hy hy'
  · intro y hcb
    by_cases hyx : y = x
    · exact Or.inr (by simp [hyx])
    · rcases hd.callback y hcb with hy | hy
      · exact Or.inl (Finset.mem_erase.2 ⟨hyx, hy⟩)
      · exact Or.inr (by simp [hy])
  · intro y hy
    exact hd.called y (Finset.mem_of_mem_erase hy)
  · intro y hy
    by_cases hyx : y = x
    · rw [hyx]
      exact ⟨hxs, Finset.notMem_erase x h.alive⟩
    · have hy : .destructor y ∈ ts := by simpa [hyx] using hy
      obtain ⟨hys, hyd⟩ := hd.destructor y hy
      exact ⟨hys, fun hmem => hyd (Finset.mem_of_mem_erase hmem)⟩
  · intro y hy
    exact hd.strong y (by simpa using hy)
  · intro y hy
    exact hd.weak y (by simpa using hy)

namespace Core

variable {s h : Heap} {a x : Nat} {ts : List Call}

theorem lasting_iff (hc : Core s a h ts) (x : Nat) : (h.refs x).Lasting ↔ (s.refs x).Lasting := by
  unfold RefCounter.Lasting
  rw [hc.shrinks.extended, hc.dying.never]

/-- What is still referred to by a call has not died. -/
theorem alive_of_strong (hw : s.WellFormed) (hc : Core s a h ts) (hx : .decStrongRef x ∈ ts) :
    x ∈ h.alive := by
  obtain ⟨l, hl, hptr⟩ := hc.dying.strong x hx
  have halive := hw.holds l hl x hptr
  by_contra hdead
  exact (hc.counted.calls_of_spent (hc.dying.spent x halive hdead)).1 hx

/-- The only reference of a spent object that may be left is `a`. -/
theorem gone_of_spent (hc : Core s a h ts) (hs : (h.refs x).Spent) {r : Ref} (hr : s.Keeps x r)
    (hra : r ≠ .sptr a) : ¬h.Exists r := by
  obtain ⟨hholders, hweaks⟩ := hc.counted.holders_of_spent hs
  obtain ⟨-, hrefers, hcounts⟩ := hr
  intro hex
  cases r with
  | sptr l =>
      have hmem : l ∈ h.holders (some a) x := by
        refine mem_holders.2 ⟨hex, ?_, ?_⟩
        · rw [hc.shrinks.ptr]
          exact hrefers
        · intro hla
          exact hra (by rw [Option.some.inj hla])
      simp [hholders] at hmem
  | wptr l =>
      obtain ⟨c, htarget, hobject⟩ := hrefers
      have hlasting : (s.refs x).Lasting := by simpa using hcounts
      have hmem : c ∈ h.weaks x := by
        refine mem_weaks.2 ⟨hc.counted.wrcs l hex c ?_, ?_⟩
        · rw [hc.shrinks.target]
          exact htarget
        · rw [hc.shrinks.object]
          exact hobject
      simp [hweaks ((hc.lasting_iff x).2 hlasting)] at hmem

theorem doomed_of_spent (hw : s.WellFormed) (hc : Core s a h ts) (hx : x ∈ h.alive)
    (hs : (h.refs x).Spent) (hkept : ∃ r, s.Keeps x r) : s.Doomed a x := by
  refine Doomed.intro (hc.shrinks.alive hx) hkept ?_ ?_
  · intro r hr hra
    obtain ⟨y, hy, -, hmem⟩ := hc.dropping.gone r hr.1 (hc.gone_of_spent hs hr hra)
    exact ⟨y, hy, hmem⟩
  · intro r hr hra y hy hmem
    obtain ⟨z, hz, hdead, hmem'⟩ := hc.dropping.gone r hr.1 (hc.gone_of_spent hs hr hra)
    rw [hw.owner y hy z hz r hmem hmem']
    exact hc.dying.doomed z hz hdead

/-- `delete`. -/
theorem eraseObject (hw : s.WellFormed) (hc : Core s a h ts) (hx : x ∈ h.alive)
    (hs : (h.refs x).Spent) (hdoomed : s.Doomed a x) :
    Core s a (h.eraseObject x) ((h.members x).map .drop ++ [.destructor x] ++ ts) := by
  have hcounted : h.Counted (some a) ((h.members x).map .drop ++ [.destructor x] ++ ts) :=
    hc.counted.congr (fun y => by simp [List.count_eq_zero]) (fun y => by simp [List.count_eq_zero])
  refine ⟨?_, hc.shrinks.trans (shrinks_eraseObject h x), ?_, ?_, hc.defined⟩
  · exact ⟨hcounted.strong, hcounted.weak, hcounted.room, hcounted.wrcs, hcounted.shared,
      hcounted.few⟩
  · rw [hc.shrinks.members]
    exact hc.dropping.eraseObject hw (hc.shrinks.alive hx) hx
  · exact hc.dying.eraseObject (hc.shrinks.alive hx) hs hdoomed

/-- A new counter for `x` that keeps what the invariant says about it, with calls of which only
`DecWeakRefCount` may be new. -/
theorem setRefs {ts' : List Call} {c : RefCounter} (hc : Core s a h ts)
    (hcounted : (h.setRefs x c).Counted (some a) ts') (hext : c.extended = (h.refs x).extended)
    (hnever : c.strong = initialPrimaryValue ↔ (h.refs x).strong = initialPrimaryValue)
    (hspent : x ∈ s.alive → x ∉ h.alive → c.Spent)
    (hcallback : c.callback = true → x ∈ h.alive ∨ .destructor x ∈ ts')
    (hcalled : x ∈ h.alive → c.callback = true)
    (hdestructor : ∀ y, y ≠ x → .destructor y ∈ ts → .destructor y ∈ ts')
    (hdrop : ∀ r, ts'.count (.drop r) = ts.count (.drop r))
    (hcalls : ∀ t ∈ ts', t ∈ ts ∨ t = .decWeakRefCount x ∧ .decStrongRef x ∈ ts) :
    Core s a (h.setRefs x c) ts' := by
  have hd := hc.dying
  refine ⟨hcounted, hc.shrinks.trans (shrinks_setRefs h hext),
    hc.dropping.congr rfl rfl rfl hdrop, ?_, hc.defined⟩
  constructor
  · intro y
    refine setRefs_cases h x c y ?_ fun y _ => hd.never y
    rw [hnever, hd.never]
  · intro y
    exact setRefs_cases h x c y hspent fun y _ => hd.spent y
  · exact hd.doomed
  · intro y
    refine setRefs_cases h x c y hcallback ?_
    intro y hy hcb
    exact (hd.callback y hcb).imp id (hdestructor y hy)
  · intro y
    exact setRefs_cases h x c y hcalled fun y _ => hd.called y
  · intro y hy
    have hmem : .destructor y ∈ ts := by simpa using hcalls _ hy
    exact hd.destructor y hmem
  · intro y hy
    have hmem : .decStrongRef y ∈ ts := by simpa using hcalls _ hy
    exact hd.strong y hmem
  · intro y hy
    rcases hcalls _ hy with hmem | ⟨heq, hmem⟩
    · exact hd.weak y hmem
    · rw [Call.decWeakRefCount.inj heq]
      obtain ⟨l, hl⟩ := hd.strong x hmem
      exact ⟨.sptr l, hl⟩

theorem decStrong (hw : s.WellFormed) (hc : Core s a h (.decStrongRef x :: ts)) :
    Core s a (h.setRefs x (h.refs x).decStrong.2) (.decWeakRefCount x :: ts) := by
  have halive : x ∈ h.alive := hc.alive_of_strong hw (by simp)
  obtain ⟨heq, hpos, hne⟩ := hc.counted.decStrong
  have hlt := (hc.counted.strong_lt hne).2.1
  have hroom := hc.counted.room x
  refine hc.setRefs hc.counted.decStrongRef ?_ ?_ ?_ ?_ ?_ ?_ ?_ ?_
  · rw [extended_decStrong]
  · rw [heq]
    simp only [hne, iff_false]
    omega
  · intro _ hdead
    exact absurd halive hdead
  · intro _
    exact Or.inl halive
  · intro _
    rw [heq]
    exact hc.dying.called x halive
  · intro y _ hy
    simpa using hy
  · intro r
    simp
  · intro t ht
    rcases List.mem_cons.1 ht with rfl | ht
    · exact Or.inr ⟨rfl, by simp⟩
    · exact Or.inl (List.mem_cons_of_mem _ ht)

theorem decWeak (hc : Core s a h (.decWeakRefCount x :: ts)) :
    Core s a (h.setRefs x (h.refs x).decWeak) ts := by
  obtain ⟨heq, hpos⟩ := hc.counted.decWeak
  refine hc.setRefs hc.counted.decWeakRefCount ?_ ?_ ?_ ?_ ?_ ?_ ?_ ?_
  · rw [extended_decWeak]
  · rw [heq]
  · intro hxs hdead
    have hspent := hc.dying.spent x hxs hdead
    have hlasting : ¬(h.refs x).Lasting := fun hl =>
      (hc.counted.calls_of_spent hspent).2 hl (by simp)
    rw [heq]
    exact ⟨fun hl => absurd hl hlasting, fun _ => hspent.2 hlasting⟩
  · intro hcb
    rw [heq] at hcb
    simpa using hc.dying.callback x hcb
  · intro halive
    rw [heq]
    exact hc.dying.called x halive
  · intro y _ hy
    simpa using hy
  · intro r
    simp
  · intro t ht
    exact Or.inl (List.mem_cons_of_mem _ ht)

/-- The count of references to the counter itself plays no role. -/
theorem recount {ts' : List Call} {c : RefCounter} (hc : Core s a h ts)
    (hts : ts = ts' ∨ ts = .decRefCount x :: ts' ∨ ts = .destructor x :: ts')
    (hs : c.strong = (h.refs x).strong) (hw : c.weak = (h.refs x).weak)
    (hext : c.extended = (h.refs x).extended)
    (hcallback : c.callback = true → x ∈ h.alive ∨ .destructor x ∈ ts')
    (hcalled : x ∈ h.alive → c.callback = true) : Core s a (h.setRefs x c) ts' := by
  have hspent : (h.refs x).Spent → c.Spent := by
    unfold RefCounter.Spent RefCounter.Lasting
    rw [hs, hw, hext]
    exact id
  have hcounted : h.Counted (some a) ts' := by
    refine hc.counted.congr ?_ ?_ <;> intro y <;> rcases hts with rfl | rfl | rfl <;> simp
  refine hc.setRefs (hcounted.setRefs_of_eq hs hw) hext (by rw [hs]) ?_ hcallback hcalled ?_ ?_ ?_
  · intro hxs hdead
    exact hspent (hc.dying.spent x hxs hdead)
  · intro y hy hmem
    rcases hts with rfl | rfl | rfl
    · exact hmem
    · simpa using hmem
    · simpa [hy] using hmem
  · intro r
    rcases hts with rfl | rfl | rfl <;> simp
  · intro t ht
    rcases hts with rfl | rfl | rfl <;> simp [ht]

theorem exists_decRef (c : RefCounter) : ∃ n, c.decRef = { c with refCount := n } := by
  unfold RefCounter.decRef
  split
  · exact ⟨_, rfl⟩
  · exact ⟨_, rfl⟩

theorem exists_leave (c : RefCounter) :
    ∃ n, c.leave = { c with callback := false, refCount := n } := by
  unfold RefCounter.leave
  simp only
  split
  · obtain ⟨n, heq⟩ := exists_decRef { c with callback := false }
    exact ⟨n, heq⟩
  · exact ⟨_, rfl⟩

theorem decRef {ts' : List Call} (hc : Core s a h ts)
    (hts : ts = ts' ∨ ts = .decRefCount x :: ts') :
    Core s a (h.setRefs x (h.refs x).decRef) ts' := by
  obtain ⟨n, heq⟩ := exists_decRef (h.refs x)
  rw [heq]
  refine hc.recount (hts.imp id Or.inl) rfl rfl rfl ?_ (hc.dying.called x)
  intro hcb
  rcases hts with rfl | rfl
  · exact hc.dying.callback x hcb
  · simpa using hc.dying.callback x hcb

theorem leave (hc : Core s a h (.destructor x :: ts)) :
    Core s a (h.setRefs x (h.refs x).leave) ts := by
  have hdead : x ∉ h.alive := (hc.dying.destructor x (by simp)).2
  obtain ⟨n, heq⟩ := exists_leave (h.refs x)
  rw [heq]
  refine hc.recount (Or.inr (Or.inr rfl)) rfl rfl rfl ?_ ?_
  · intro hcb
    cases hcb
  · intro hx
    exact absurd hx hdead

theorem exists_of_drop {r : Ref} (hc : Core s a h (.drop r :: ts)) : h.Exists r :=
  ((hc.dropping.pending r).1 (by simp)).1

/-- `~sptr` or `~wptr`, which makes the calls `news` for what the smart pointer refers to. -/
theorem drop {h' : Heap} {r : Ref} {news : List Call} (hc : Core s a h (.drop r :: ts))
    (hcounted : h'.Counted (some a) (news ++ ts)) (hshrinks : Shrinks h h')
    (hrefs : h'.refs = h.refs) (halive : h'.alive = h.alive)
    (hundefined : h'.undefined = h.undefined)
    (hexists : ∀ r', h'.Exists r' ↔ r' ≠ r ∧ h.Exists r') (hnews : ∀ t ∈ news, Follows s r t) :
    Core s a h' (news ++ ts) := by
  have hr : s.Exists r := hc.shrinks.exists_of_exists hc.exists_of_drop
  exact ⟨hcounted, hc.shrinks.trans hshrinks, hc.dropping.drop halive hexists hnews,
    hc.dying.drop hrefs halive hr hnews, hundefined ▸ hc.defined⟩

theorem dropSptr {l : Nat} (hc : Core s a h (.drop (.sptr l) :: ts)) (hla : l ≠ a) :
    Core s a (h.dropSptr l).1 ((h.dropSptr l).2 ++ ts) := by
  have hl : l ∈ h.sptrs := hc.exists_of_drop
  have hcounted : h.Counted (some a) ts :=
    hc.counted.congr (fun x => by simp) (fun x => by simp)
  rw [Heap.dropSptr, if_pos hl]
  refine hc.drop (hcounted.eraseSptr hl hla) (shrinks_eraseSptr h l) rfl rfl rfl ?_ ?_
  · intro r'
    cases r' with
    | sptr k => simp [Exists, Heap.eraseSptr]
    | wptr k => simp [Exists, Heap.eraseSptr]
  · intro t ht
    obtain ⟨x, hx, rfl⟩ := List.mem_map.1 ht
    refine ⟨x, ?_, Or.inl ⟨rfl, l, rfl⟩⟩
    have hptr : s.ptr l = some x := by
      rw [← hc.shrinks.ptr]
      simpa using hx
    exact hptr

theorem dropWptr {l : Nat} (hc : Core s a h (.drop (.wptr l) :: ts)) :
    Core s a (h.dropWptr l).1 ((h.dropWptr l).2 ++ ts) := by
  have hl : l ∈ h.wptrs := hc.exists_of_drop
  have hcounted : h.Counted (some a) ts :=
    hc.counted.congr (fun x => by simp) (fun x => by simp)
  have hexists : ∀ r', (h.eraseWptr l).Exists r' ↔ r' ≠ .wptr l ∧ h.Exists r' := by
    intro r'
    cases r' with
    | sptr k => simp [Exists, Heap.eraseWptr]
    | wptr k => simp [Exists, Heap.eraseWptr]
  have hshrinks := shrinks_step h (.drop (.wptr l))
  rw [step] at hshrinks
  rw [Heap.dropWptr, if_pos hl] at hshrinks ⊢
  cases ht : h.target l with
  | none =>
      simp only [ht] at hshrinks ⊢
      exact hc.drop (hcounted.eraseWptr_null ht) hshrinks rfl rfl rfl hexists (by simp)
  | some c =>
      simp only [ht] at hshrinks ⊢
      have hrefers : s.Refers (h.object c) (.wptr l) := by
        refine ⟨c, ?_, ?_⟩
        · rw [← hc.shrinks.target, ht]
        · rw [hc.shrinks.object]
      have hdrop := hcounted.dropWrc hl ht
      unfold Heap.dropWrc at hdrop hshrinks ⊢
      simp only at hdrop hshrinks ⊢
      split_ifs at hdrop hshrinks ⊢
      · refine hc.drop hdrop hshrinks rfl rfl rfl hexists ?_
        intro t ht
        have ht : t ∈ [Call.decWeakRefCount (h.object c), .decRefCount (h.object c)] := ht
        exact ⟨h.object c, hrefers, Or.inr (by simpa using ht)⟩
      · exact hc.drop hdrop hshrinks rfl rfl rfl hexists (by simp)

end Core

/-! ## Every call keeps it -/

/-- Destructors of smart pointers leave it to the calls they make to touch an object. -/
theorem step_drop (h : Heap) (r : Ref) :
    (h.step (.drop r)).1.refs = h.refs ∧ (h.step (.drop r)).1.alive = h.alive := by
  cases r with
  | sptr l =>
      simp only [step, dropSptr]
      split_ifs <;> exact ⟨rfl, rfl⟩
  | wptr l =>
      simp only [step, dropWptr]
      split_ifs
      · cases h.target l with
        | none => exact ⟨rfl, rfl⟩
        | some c =>
            simp only [dropWrc]
            split_ifs <;> exact ⟨rfl, rfl⟩
      · exact ⟨rfl, rfl⟩

namespace Inv

variable {s h : Heap} {a x : Nat} {ts : List Call}

theorem kept_of_ne (hi : Inv s a h ts) {c : RefCounter}
    (hx : x ∈ h.alive → c.Spent → (s.refs x).weak = 0) : Kept s (h.setRefs x c) := by
  intro y
  exact setRefs_cases h x c y hx fun y _ => hi.kept y

/-- A call of `callback_` ends an object that is spent. -/
theorem callback (hw : s.WellFormed) (hc : Core s a h ts) (hs : (h.refs x).Spent)
    (hkept : ∀ y ∈ h.alive, y ≠ x → (h.refs y).Spent → (s.refs y).weak = 0)
    (hrefers : x ∈ h.alive → ∃ r, s.Keeps x r) (hdead : x ∉ h.alive → (h.refs x).callback = false) :
    Inv s a (h.callback x).1 ((h.callback x).2 ++ ts) := by
  unfold Heap.callback
  by_cases hx : x ∈ h.alive
  · rw [if_pos (hc.dying.called x hx), if_pos hx]
    refine ⟨hc.eraseObject hw hx hs (hc.doomed_of_spent hw hx hs (hrefers hx)), ?_⟩
    intro y hy hsy
    obtain ⟨hyx, hy⟩ := Finset.mem_erase.1 hy
    exact hkept y hy hyx hsy
  · rw [if_neg (by rw [hdead hx]; simp)]
    refine ⟨hc, ?_⟩
    intro y hy hsy
    exact hkept y hy (fun hyx => hx (hyx ▸ hy)) hsy

theorem decStrongRef (hw : s.WellFormed) (hi : Inv s a h (.decStrongRef x :: ts)) :
    Inv s a (h.decStrongRef x).1 ((h.decStrongRef x).2 ++ ts) := by
  have hc := hi.core.decStrong hw
  have halive : x ∈ h.alive := hi.core.alive_of_strong hw (by simp)
  obtain ⟨heq, hpos, hne⟩ := hi.core.counted.decStrong
  have hlt := (hi.core.counted.strong_lt hne).2.1
  have hroom := hi.core.counted.room x
  have hweak : 0 < (h.refs x).weak := by omega
  unfold Heap.decStrongRef
  rw [if_pos (hi.core.dying.called x halive)]
  simp only
  have hlasting : (h.refs x).decStrong.2.Lasting ↔ (h.refs x).extended = true := by
    rw [heq]
    unfold RefCounter.Lasting
    simp only [or_iff_left_iff_imp]
    omega
  split_ifs with hlast
  · obtain ⟨hone, hext⟩ := hlast
    rw [List.append_assoc]
    refine callback hw hc ?_ ?_ ?_ ?_
    · rw [refs_setRefs_self]
      refine ⟨fun hl => ?_, fun _ => ?_⟩
      · rw [extended_decStrong, hlasting.1 hl] at hext
        cases hext
      · rw [heq] at hone ⊢
        simp only at hone ⊢
        omega
    · intro y hy hyx hs
      rw [refs_setRefs_of_ne h hyx] at hs
      exact hi.kept y hy hs
    · intro _
      obtain ⟨l, hl, hrefers⟩ := hi.core.dying.strong x (by simp)
      exact ⟨.sptr l, hl, hrefers, Or.inr ⟨l, rfl⟩⟩
    · intro hdead
      exact absurd halive hdead
  · refine ⟨hc, hi.kept_of_ne ?_⟩
    intro _ hs
    exfalso
    by_cases hext : (h.refs x).extended = true
    · have hzero := hs.1 (hlasting.2 hext)
      rw [heq] at hzero
      simp only at hzero
      omega
    · have hzero := hs.2 fun hl => hext (hlasting.1 hl)
      apply hlast
      rw [extended_decStrong]
      rw [heq] at hzero ⊢
      simp only at hzero ⊢
      refine ⟨by omega, ?_⟩
      simpa using hext

theorem decRef {ts' : List Call} (hi : Inv s a h ts) (hts : ts = ts' ∨ ts = .decRefCount x :: ts') :
    Inv s a (h.setRefs x (h.refs x).decRef) ts' := by
  refine ⟨hi.core.decRef hts, hi.kept_of_ne ?_⟩
  obtain ⟨n, heq⟩ := Core.exists_decRef (h.refs x)
  rw [heq]
  exact hi.kept x

theorem decWeakRefCount (hi : Inv s a h (.decWeakRefCount x :: ts)) (hw : s.WellFormed) :
    Inv s a (h.decWeakRefCount x).1 ((h.decWeakRefCount x).2 ++ ts) := by
  have hc := hi.core.decWeak
  obtain ⟨heq, hpos⟩ := hi.core.counted.decWeak
  have hlasting : (h.refs x).decWeak.Lasting ↔ (h.refs x).Lasting := by
    rw [heq]
    exact Iff.rfl
  -- the last weak reference of an object that lasts as long as there is one
  have hend : (h.refs x).weak = 1 → (h.refs x).Lasting →
      Inv s a ((h.setRefs x (h.refs x).decWeak).callback x).1
        (((h.setRefs x (h.refs x).decWeak).callback x).2 ++ ts) := by
    intro hone hl
    refine callback hw hc ?_ ?_ ?_ ?_
    · rw [refs_setRefs_self]
      refine ⟨fun _ => ?_, fun hl' => absurd (hlasting.2 hl) hl'⟩
      rw [heq]
      simp only
      omega
    · intro y hy hyx hs
      rw [refs_setRefs_of_ne h hyx] at hs
      exact hi.kept y hy hs
    · intro _
      obtain ⟨r, hr, hrefers⟩ := hi.core.dying.weak x (by simp)
      exact ⟨r, hr, hrefers, Or.inl ((hi.core.lasting_iff x).1 hl)⟩
    · intro hdead
      rw [refs_setRefs_self, heq]
      by_contra hcb
      rcases hi.core.dying.callback x (by simpa using hcb) with hx | hx
      · exact hdead hx
      · obtain ⟨hxs, hxd⟩ := hi.core.dying.destructor x hx
        exact (hi.core.counted.calls_of_spent (hi.core.dying.spent x hxs hxd)).2 hl (by simp)
  have hstrong : ¬(h.refs x).Lasting → x ∈ h.alive → (h.refs x).decWeak.Spent →
      (s.refs x).weak = 0 := by
    intro hl hx hs
    refine hi.kept x hx ⟨fun hl' => absurd hl' hl, fun _ => ?_⟩
    have hzero := hs.2 (hlasting.not.2 hl)
    rwa [heq] at hzero
  unfold Heap.decWeakRefCount
  simp only
  split_ifs with hmore hext hnever
  · refine ⟨hc, hi.kept_of_ne ?_⟩
    intro hx hs
    by_cases hl : (h.refs x).Lasting
    · have hzero := hs.1 (hlasting.2 hl)
      rw [heq] at hzero
      simp only at hzero
      omega
    · exact hstrong hl hx hs
  · rw [extended_decWeak] at hext
    exact hend (not_not.1 hmore) (Or.inl hext)
  · rw [heq] at hnever
    exact hend (not_not.1 hmore) (Or.inr hnever)
  · have hl : ¬(h.refs x).Lasting := by
      rw [← hlasting]
      exact not_or.2 ⟨hext, hnever⟩
    have hi' : Inv s a (h.setRefs x (h.refs x).decWeak) ts := ⟨hc, hi.kept_of_ne (hstrong hl)⟩
    have hlast := hi'.decRef (x := x) (Or.inl rfl)
    rw [refs_setRefs_self] at hlast
    exact hlast

theorem step (hw : s.WellFormed) {t : Call} (hi : Inv s a h (t :: ts)) (ht : t ≠ .drop (.sptr a)) :
    Inv s a (h.step t).1 ((h.step t).2 ++ ts) := by
  cases t with
  | drop r =>
      have hrefs : (h.step (.drop r)).1.refs = h.refs ∧ (h.step (.drop r)).1.alive = h.alive :=
        step_drop h r
      have hkept : Kept s (h.step (.drop r)).1 := by
        unfold Kept
        rw [hrefs.1, hrefs.2]
        exact hi.kept
      cases r with
      | sptr l => exact ⟨hi.core.dropSptr fun hla => ht (by rw [hla]), hkept⟩
      | wptr l => exact ⟨hi.core.dropWptr, hkept⟩
  | decStrongRef x => exact hi.decStrongRef hw
  | decWeakRefCount x => exact hi.decWeakRefCount hw
  | destructor x =>
      refine ⟨hi.core.leave, hi.kept_of_ne ?_⟩
      intro hx
      exact absurd hx (hi.core.dying.destructor x (by simp)).2
  | decRefCount x => exact hi.decRef (Or.inr rfl)

end Inv

end Heap

end CUtils.RefBases
