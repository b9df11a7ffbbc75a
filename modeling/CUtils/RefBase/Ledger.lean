import Mathlib.Tactic.ByContra

/-!
# Who holds what

An abstract account of the references to one object of normal lifetime. A holder of a strong
reference holds a weak one with it. Whoever gives a reference up, or is about to, stands in one
`Role`; the ledger counts the holders in each role and knows three things more: whether the strong
count still has its initial value in it, whether the base reference is still held, and how many
references on the counter itself there are besides.

A `Move` is what one atomic step can do to the ledger. `Sound` is kept by all of them
(`Sound.move`); it says that the callback is called at most once, that nobody then holds a strong
reference, and that the counter is freed when nobody is left.
-/

namespace CUtils.RefBases

inductive Role
  /-- Has the first strong reference and is to take the initial value off. -/
  | starting
  | strong
  /-- Has given the last strong reference up and is to call the callback. -/
  | dropping
  /-- In the callback, called for the last strong reference. -/
  | destroying
  | weak
  /-- Has given the last weak reference up. -/
  | last
  /-- There never was a strong reference: is to call the callback. -/
  | abandoning
  /-- In the callback, called for the last weak reference; is to release the base reference. -/
  | burying
  /-- Is to release the base reference. -/
  | closing
deriving DecidableEq

structure Ledger where
  count : Role → Nat
  /-- References on the counter, the base reference apart. -/
  refs : Nat
  /-- One as long as the initial value has not been taken off the strong count. -/
  initial : Nat
  /-- One as long as the base reference is held. -/
  base : Nat
  invoked : Nat
  freed : Nat

namespace Ledger

def strong (l : Ledger) : Nat := l.count .starting + l.count .strong

def weak (l : Ledger) : Nat :=
  l.strong + l.count .dropping + l.count .destroying + l.count .weak

/-- Those who act after the last weak reference. -/
def leavers (l : Ledger) : Nat :=
  l.count .last + l.count .abandoning + l.count .burying + l.count .closing

/-- One holder goes from the role `a` to the role `b`. -/
def shift (l : Ledger) (a b : Option Role) : Ledger :=
  { l with count := fun r =>
      l.count r - (if a = some r then 1 else 0) + (if b = some r then 1 else 0) }

/-- A reference on the counter has gone, and the counter with the last one. -/
def settle (l : Ledger) : Ledger :=
  { l with freed := if l.refs + l.base = 0 then l.freed + 1 else l.freed }

def new : Ledger where
  count _ := 0
  refs := 0
  initial := 1
  base := 1
  invoked := 0
  freed := 0

inductive Move (l : Ledger) : Ledger → Prop
  | stay : Move l l
  | takeWeak (h : 0 < l.weak ∨ l.base = 1 ∧ l.leavers = 0) : Move l (l.shift none (some .weak))
  | takeFirst (h : 0 < l.count .weak) (hinitial : l.initial = 1) (hnone : l.strong = 0) :
      Move l (l.shift (some .weak) (some .starting))
  | takeStrong (h : 0 < l.count .weak) (hsome : 0 < l.strong) :
      Move l (l.shift (some .weak) (some .strong))
  | start (h : 0 < l.count .starting) :
      Move l { l.shift (some .starting) (some .strong) with initial := 0 }
  | dropStrong (h : 0 < l.count .strong) (hmore : l.initial = 1 ∨ 1 < l.strong) :
      Move l (l.shift (some .strong) (some .weak))
  | dropLast (h : 0 < l.count .strong) (hinitial : l.initial = 0) (hone : l.strong = 1) :
      Move l (l.shift (some .strong) (some .dropping))
  | invoke (h : 0 < l.count .dropping) :
      Move l { l.shift (some .dropping) (some .destroying) with invoked := l.invoked + 1 }
  | destroyed (h : 0 < l.count .destroying) : Move l (l.shift (some .destroying) (some .weak))
  | dropWeak (h : 0 < l.count .weak) (hmore : 1 < l.weak) : Move l (l.shift (some .weak) none)
  | leave (h : 0 < l.count .weak) (hone : l.weak = 1) :
      Move l (l.shift (some .weak) (some .last))
  | abandon (h : 0 < l.count .last) (hinitial : l.initial = 1) :
      Move l (l.shift (some .last) (some .abandoning))
  | close (h : 0 < l.count .last) (hinitial : l.initial = 0) :
      Move l (l.shift (some .last) (some .closing))
  | bury (h : 0 < l.count .abandoning) :
      Move l { l.shift (some .abandoning) (some .burying) with invoked := l.invoked + 1 }
  | buried (h : 0 < l.count .burying) :
      Move l (settle { l.shift (some .burying) none with base := 0 })
  | closed (h : 0 < l.count .closing) :
      Move l (settle { l.shift (some .closing) none with base := 0 })
  | takeRef (h : 0 < l.refs + l.base) : Move l { l with refs := l.refs + 1 }
  | dropRef (h : 0 < l.refs) : Move l (settle { l with refs := l.refs - 1 })

/-- The life of the object, as the ledger shows it. -/
inductive Phase (l : Ledger) : Prop
  /-- There never was a strong reference. -/
  | fresh (hi : l.initial = 1) (hb : l.base = 1) (hn : l.invoked = 0) (hs : l.strong = 0)
      (hd : l.count .dropping = 0) (hy : l.count .destroying = 0) (hl : l.leavers = 0)
  /-- There are strong references, with the initial value still in the count. -/
  | starting (hi : l.initial = 1) (hb : l.base = 1) (hn : l.invoked = 0)
      (hs : l.count .starting = 1) (hd : l.count .dropping = 0) (hy : l.count .destroying = 0)
      (hl : l.leavers = 0)
  | live (hi : l.initial = 0) (hb : l.base = 1) (hn : l.invoked = 0) (hs : l.count .starting = 0)
      (hp : 0 < l.count .strong) (hd : l.count .dropping = 0) (hy : l.count .destroying = 0)
      (hl : l.leavers = 0)
  | dropping (hi : l.initial = 0) (hb : l.base = 1) (hn : l.invoked = 0) (hs : l.strong = 0)
      (hd : l.count .dropping = 1) (hy : l.count .destroying = 0) (hl : l.leavers = 0)
  /-- The object is destroyed, or being destroyed. -/
  | dead (hi : l.initial = 0) (hb : l.base = 1) (hn : l.invoked = 1) (hs : l.strong = 0)
      (hd : l.count .dropping = 0) (hl : l.leavers = 0)
  /-- The last weak reference has gone, and there never was a strong one. -/
  | unused (hi : l.initial = 1) (hb : l.base = 1) (hn : l.invoked = 0) (hw : l.weak = 0)
      (hp : l.count .last + l.count .abandoning = 1) (hy : l.count .burying = 0)
      (hc : l.count .closing = 0)
  | burying (hi : l.initial = 1) (hb : l.base = 1) (hn : l.invoked = 1) (hw : l.weak = 0)
      (hp : l.count .burying = 1) (hl : l.count .last = 0) (ha : l.count .abandoning = 0)
      (hc : l.count .closing = 0)
  | closing (hi : l.initial = 0) (hb : l.base = 1) (hn : l.invoked = 1) (hw : l.weak = 0)
      (hp : l.count .last + l.count .closing = 1) (ha : l.count .abandoning = 0)
      (hy : l.count .burying = 0)
  | gone (hi : l.initial ≤ 1) (hb : l.base = 0) (hn : l.invoked = 1) (hw : l.weak = 0)
      (hl : l.leavers = 0)

/-- What holds of the ledger in every run. -/
structure Sound (l : Ledger) : Prop where
  phase : Phase l
  freed : l.freed = if l.refs + l.base = 0 then 1 else 0

theorem sound_new : Sound new := ⟨.fresh rfl rfl rfl rfl rfl rfl rfl, rfl⟩

variable {l l' : Ledger}

/-! ## Weak references -/

theorem Phase.takeWeak (hl : Phase l) (h : 0 < l.weak ∨ l.base = 1 ∧ l.leavers = 0) :
    Phase (l.shift none (some .weak)) := by
  unfold leavers at h
  cases hl with
  | fresh hi hb hn hs hd hy hl => exact .fresh hi hb hn hs hd hy hl
  | starting hi hb hn hs hd hy hl => exact .starting hi hb hn hs hd hy hl
  | live hi hb hn hs hp hd hy hl => exact .live hi hb hn hs hp hd hy hl
  | dropping hi hb hn hs hd hy hl => exact .dropping hi hb hn hs hd hy hl
  | dead hi hb hn hs hd hl => exact .dead hi hb hn hs hd hl
  | _ => omega

theorem weak_eq_zero (h : l.weak = 0) :
    l.count .starting = 0 ∧ l.count .strong = 0 ∧ l.count .dropping = 0 ∧
      l.count .destroying = 0 ∧ l.count .weak = 0 := by
  unfold weak strong at h
  omega

theorem Phase.dropWeak (hl : Phase l) (h : 0 < l.count .weak) :
    Phase (l.shift (some .weak) none) := by
  cases hl with
  | fresh hi hb hn hs hd hy hl => exact .fresh hi hb hn hs hd hy hl
  | starting hi hb hn hs hd hy hl => exact .starting hi hb hn hs hd hy hl
  | live hi hb hn hs hp hd hy hl => exact .live hi hb hn hs hp hd hy hl
  | dropping hi hb hn hs hd hy hl => exact .dropping hi hb hn hs hd hy hl
  | dead hi hb hn hs hd hl => exact .dead hi hb hn hs hd hl
  | unused _ _ _ hw | burying _ _ _ hw | closing _ _ _ hw | gone _ _ _ hw =>
      have := (weak_eq_zero hw).2.2.2.2
      omega

/-- Giving the last weak reference up: the object was not used, or it has been destroyed. -/
theorem Phase.leave (hl : Phase l) (h : 0 < l.count .weak) (hone : l.weak = 1) :
    Phase (l.shift (some .weak) (some .last)) := by
  have hzero : (l.shift (some .weak) (some .last)).weak = 0 := by
    simp [shift, weak, strong] at hone ⊢
    omega
  cases hl with
  | fresh hi hb hn hs hd hy hl =>
      unfold leavers at hl
      exact .unused hi hb hn hzero (by simp [shift]; omega) (by simp [shift]; omega)
        (by simp [shift]; omega)
  | dead hi hb hn hs hd hl =>
      unfold leavers at hl
      exact .closing hi hb hn hzero (by simp [shift]; omega) (by simp [shift]; omega)
        (by simp [shift]; omega)
  | _ => unfold weak strong at *; omega

/-! ## Strong references -/

theorem Phase.takeFirst (hl : Phase l) (h : 0 < l.count .weak) (hinitial : l.initial = 1)
    (hnone : l.strong = 0) : Phase (l.shift (some .weak) (some .starting)) := by
  unfold strong at hnone
  cases hl with
  | fresh hi hb hn hs hd hy hl => exact .starting hi hb hn (by simp [shift]; omega) hd hy hl
  | unused _ _ _ hw | burying _ _ _ hw | gone _ _ _ hw =>
      have := (weak_eq_zero hw).2.2.2.2
      omega
  | _ => omega

theorem Phase.takeStrong (hl : Phase l) (hsome : 0 < l.strong) :
    Phase (l.shift (some .weak) (some .strong)) := by
  unfold strong at hsome
  cases hl with
  | starting hi hb hn hs hd hy hl => exact .starting hi hb hn hs hd hy hl
  | live hi hb hn hs hp hd hy hl =>
      exact .live hi hb hn hs (by simp [shift]) hd hy hl
  | _ => unfold weak strong at *; omega

/-- The holder that took the first strong reference still has it, so the count does not go to zero
with the initial value. -/
theorem Phase.start (hl : Phase l) (h : 0 < l.count .starting) :
    Phase { l.shift (some .starting) (some .strong) with initial := 0 } := by
  cases hl with
  | starting hi hb hn hs hd hy hl =>
      exact .live rfl hb hn (by simp [shift]; omega) (by simp [shift]) hd hy hl
  | live => omega
  | _ => unfold weak strong at *; omega

theorem Phase.dropStrong (hl : Phase l) (h : 0 < l.count .strong)
    (hmore : l.initial = 1 ∨ 1 < l.strong) : Phase (l.shift (some .strong) (some .weak)) := by
  unfold strong at hmore
  cases hl with
  | starting hi hb hn hs hd hy hl => exact .starting hi hb hn hs hd hy hl
  | live hi hb hn hs hp hd hy hl =>
      exact .live hi hb hn hs (by simp [shift]; omega) hd hy hl
  | _ => unfold weak strong at *; omega

theorem Phase.dropLast (hl : Phase l) (h : 0 < l.count .strong) (hinitial : l.initial = 0)
    (hone : l.strong = 1) : Phase (l.shift (some .strong) (some .dropping)) := by
  unfold strong at hone
  cases hl with
  | live hi hb hn hs hp hd hy hl =>
      exact .dropping hi hb hn (by simp [shift, strong]; omega) (by simp [shift]; omega) hy hl
  | starting => omega
  | _ => unfold weak strong at *; omega

theorem Phase.invoke (hl : Phase l) (h : 0 < l.count .dropping) :
    Phase { l.shift (some .dropping) (some .destroying) with invoked := l.invoked + 1 } := by
  cases hl with
  | dropping hi hb hn hs hd hy hl =>
      exact .dead hi hb (congrArg (· + 1) hn) hs (by simp [shift]; omega) hl
  | _ => unfold weak at *; omega

theorem Phase.destroyed (hl : Phase l) (h : 0 < l.count .destroying) :
    Phase (l.shift (some .destroying) (some .weak)) := by
  cases hl with
  | dead hi hb hn hs hd hl => exact .dead hi hb hn hs hd hl
  | _ => unfold weak at *; omega

/-! ## After the last weak reference -/

theorem Phase.abandon (hl : Phase l) (h : 0 < l.count .last) (hinitial : l.initial = 1) :
    Phase (l.shift (some .last) (some .abandoning)) := by
  cases hl with
  | unused hi hb hn hw hp hy hc => exact .unused hi hb hn hw (by simp [shift]; omega) hy hc
  | _ => unfold leavers at *; omega

theorem Phase.close (hl : Phase l) (h : 0 < l.count .last) (hinitial : l.initial = 0) :
    Phase (l.shift (some .last) (some .closing)) := by
  cases hl with
  | closing hi hb hn hw hp ha hy => exact .closing hi hb hn hw (by simp [shift]; omega) ha hy
  | _ => unfold leavers at *; omega

theorem Phase.bury (hl : Phase l) (h : 0 < l.count .abandoning) :
    Phase { l.shift (some .abandoning) (some .burying) with invoked := l.invoked + 1 } := by
  cases hl with
  | unused hi hb hn hw hp hy hc =>
      exact .burying hi hb (congrArg (· + 1) hn) hw (by simp [shift]; omega) (by simp [shift]; omega)
        (by simp [shift]; omega) hc
  | _ => unfold leavers at *; omega

theorem Phase.buried (hl : Phase l) (h : 0 < l.count .burying) :
    Phase { l.shift (some .burying) none with base := 0 } := by
  cases hl with
  | burying hi hb hn hw hp hl ha hc =>
      exact .gone (Nat.le_of_eq hi) rfl hn hw (by simp [shift, leavers]; omega)
  | _ => unfold leavers at *; omega

theorem Phase.closed (hl : Phase l) (h : 0 < l.count .closing) :
    Phase { l.shift (some .closing) none with base := 0 } := by
  cases hl with
  | closing hi hb hn hw hp ha hy =>
      exact .gone (Nat.le_succ_of_le (Nat.le_of_eq hi)) rfl hn hw (by simp [shift, leavers]; omega)
  | _ => unfold leavers at *; omega

/-- The phase does not depend on the references on the counter. -/
theorem Phase.congr (hl : Phase l) (hcount : l'.count = l.count) (hi : l'.initial = l.initial)
    (hb : l'.base = l.base) (hn : l'.invoked = l.invoked) : Phase l' := by
  obtain ⟨count, refs, initial, base, invoked, freed⟩ := l
  obtain ⟨count', refs', initial', base', invoked', freed'⟩ := l'
  subst hcount hi hb hn
  cases hl with
  | fresh hi hb hn hs hd hy hl => exact .fresh hi hb hn hs hd hy hl
  | starting hi hb hn hs hd hy hl => exact .starting hi hb hn hs hd hy hl
  | live hi hb hn hs hp hd hy hl => exact .live hi hb hn hs hp hd hy hl
  | dropping hi hb hn hs hd hy hl => exact .dropping hi hb hn hs hd hy hl
  | dead hi hb hn hs hd hl => exact .dead hi hb hn hs hd hl
  | unused hi hb hn hw hp hy hc => exact .unused hi hb hn hw hp hy hc
  | burying hi hb hn hw hp hl ha hc => exact .burying hi hb hn hw hp hl ha hc
  | closing hi hb hn hw hp ha hy => exact .closing hi hb hn hw hp ha hy
  | gone hi hb hn hw hl => exact .gone hi hb hn hw hl

/-! ## Runs of moves -/

theorem Phase.leaver_base (hl : Phase l) (h : 0 < l.weak ∨ 0 < l.leavers) : l.base = 1 := by
  cases hl with
  | gone hi hb hn hw hl => omega
  | _ => assumption

theorem Sound.settle (hl : Phase l) (hfreed : l.freed = 0) : Sound l.settle := by
  refine ⟨hl.congr rfl rfl rfl rfl, ?_⟩
  simp only [Ledger.settle, hfreed]

theorem Sound.move (hl : Sound l) (hmove : Move l l') : Sound l' := by
  obtain ⟨hphase, hfreed⟩ := hl
  cases hmove with
  | stay => exact ⟨hphase, hfreed⟩
  | takeWeak h => exact ⟨hphase.takeWeak h, hfreed⟩
  | takeFirst h hinitial hnone => exact ⟨hphase.takeFirst h hinitial hnone, hfreed⟩
  | takeStrong h hsome => exact ⟨hphase.takeStrong hsome, hfreed⟩
  | start h => exact ⟨hphase.start h, hfreed⟩
  | dropStrong h hmore => exact ⟨hphase.dropStrong h hmore, hfreed⟩
  | dropLast h hinitial hone => exact ⟨hphase.dropLast h hinitial hone, hfreed⟩
  | invoke h => exact ⟨hphase.invoke h, hfreed⟩
  | destroyed h => exact ⟨hphase.destroyed h, hfreed⟩
  | dropWeak h hmore => exact ⟨hphase.dropWeak h, hfreed⟩
  | leave h hone => exact ⟨hphase.leave h hone, hfreed⟩
  | abandon h hinitial => exact ⟨hphase.abandon h hinitial, hfreed⟩
  | close h hinitial => exact ⟨hphase.close h hinitial, hfreed⟩
  | bury h => exact ⟨hphase.bury h, hfreed⟩
  | buried h =>
      have hbase := hphase.leaver_base (Or.inr (by unfold leavers; omega))
      exact .settle (hphase.buried h) (hfreed.trans (if_neg (by omega)))
  | closed h =>
      have hbase := hphase.leaver_base (Or.inr (by unfold leavers; omega))
      exact .settle (hphase.closed h) (hfreed.trans (if_neg (by omega)))
  | takeRef h =>
      refine ⟨hphase.congr rfl rfl rfl rfl, ?_⟩
      rw [if_neg (by simp)]
      exact hfreed.trans (if_neg (by omega))
  | dropRef h =>
      refine .settle (hphase.congr rfl rfl rfl rfl) (hfreed.trans (if_neg (by omega)))

/-! ## What a sound ledger says -/

theorem Sound.initial_le (hl : Sound l) : l.initial ≤ 1 := by
  cases hl.phase <;> omega

theorem Sound.base_le (hl : Sound l) : l.base ≤ 1 := by
  cases hl.phase <;> omega

theorem Sound.invoked_le (hl : Sound l) : l.invoked ≤ 1 := by
  cases hl.phase <;> omega

theorem Sound.invoked_eq_zero (hl : Sound l) (h : 0 < l.strong) : l.invoked = 0 := by
  cases hl.phase with
  | fresh | starting | live | dropping | unused => assumption
  | _ => unfold weak at *; omega

/-- With the last weak reference the strong ones have gone. -/
theorem Sound.strong_eq_zero (hl : Sound l) (h : 0 < l.leavers) : l.strong = 0 := by
  cases hl.phase with
  | unused _ _ _ hw | burying _ _ _ hw | closing _ _ _ hw =>
      have := weak_eq_zero hw
      unfold strong
      omega
  | _ => omega

theorem Sound.starting_initial (hl : Sound l) (h : 0 < l.count .starting) : l.initial = 1 := by
  cases hl.phase with
  | starting hi => exact hi
  | live => omega
  | _ => unfold weak strong at *; omega

theorem Sound.dropping_invoked (hl : Sound l) (h : 0 < l.count .dropping) : l.invoked = 0 := by
  cases hl.phase with
  | dropping _ _ hn => exact hn
  | _ => unfold weak at *; omega

theorem Sound.destroying_invoked (hl : Sound l) (h : 0 < l.count .destroying) : l.invoked = 1 := by
  cases hl.phase with
  | dead _ _ hn => exact hn
  | _ => unfold weak at *; omega

theorem Sound.destroying_initial (hl : Sound l) (h : 0 < l.count .destroying) : l.initial = 0 := by
  cases hl.phase with
  | dead hi => exact hi
  | _ => unfold weak at *; omega

theorem Sound.burying_spec (hl : Sound l) (h : 0 < l.count .burying) :
    l.initial = 1 ∧ l.invoked = 1 := by
  cases hl.phase with
  | burying hi _ hn => exact ⟨hi, hn⟩
  | _ => unfold leavers at *; omega

theorem Sound.abandoning_invoked (hl : Sound l) (h : 0 < l.count .abandoning) : l.invoked = 0 := by
  cases hl.phase with
  | unused _ _ hn => exact hn
  | _ => unfold leavers at *; omega

theorem Sound.freed_le (hl : Sound l) : l.freed ≤ 1 := by
  rw [hl.freed]
  split <;> omega

/-- When the counter is freed there is nobody left. -/
theorem Sound.of_freed (hl : Sound l) (h : l.freed = 1) :
    (∀ r, l.count r = 0) ∧ l.refs = 0 ∧ l.invoked = 1 := by
  have hnone : l.refs + l.base = 0 := by
    by_contra hne
    rw [hl.freed, if_neg hne] at h
    omega
  cases hl.phase with
  | gone hi hb hn hw hleavers =>
      have hweak := weak_eq_zero hw
      unfold leavers at hleavers
      refine ⟨fun r => ?_, by omega, hn⟩
      cases r <;> omega
  | _ => omega

end Ledger

end CUtils.RefBases
