import CUtils.Sync.SafeMap

/-!
# The maps that threads share are linearizable

Each section as a whole does to the map what the method is for (`implements`); the rest is the general
argument about methods that work under a mutex.
-/

namespace CUtils.SafeMaps

open Std Monitor Threads

variable {ω K V : Type} {cmp : K → K → Ordering}

/-- What a map holds. -/
def contents (m : TreeMap K V cmp) : Contents K V where
  get key := m[key]?
  size := m.size

section

variable [TransCmp cmp] [LawfulEqCmp cmp] [DecidableEq K] {m : TreeMap K V cmp} {key : K} {value : V}

/-! ## What the accesses do -/

theorem contents_insertIfNew (h : m[key]? = none) :
    contents (m.insertIfNew key value) = (contents m).put key value := by
  have hmem : key ∉ m := by
    rw [TreeMap.mem_iff_isSome_getElem?, h]
    exact Bool.false_ne_true
  ext1
  · funext key'
    show (m.insertIfNew key value)[key']? = Function.update (fun k => m[k]?) key (some value) key'
    rw [TreeMap.getElem?_insertIfNew]
    by_cases hkey : key' = key
    · rw [hkey, Function.update_self, if_pos ⟨ReflCmp.compare_self, hmem⟩]
    · rw [Function.update_of_ne hkey, if_neg]
      intro hcond
      exact hkey (LawfulEqCmp.eq_of_compare hcond.1).symm
  · show (m.insertIfNew key value).size = if (m[key]?).isSome then m.size else m.size + 1
    rw [TreeMap.size_insertIfNew, if_neg hmem, h]
    rfl

omit [LawfulEqCmp cmp] [DecidableEq K] in
theorem contents_insertIfNew_of_some {old : V} (h : m[key]? = some old) :
    contents (m.insertIfNew key value) = contents m := by
  have hmem : key ∈ m := by
    rw [TreeMap.mem_iff_isSome_getElem?, h]
    rfl
  ext1
  · funext key'
    show (m.insertIfNew key value)[key']? = m[key']?
    rw [TreeMap.getElem?_insertIfNew, if_neg fun hcond => hcond.2 hmem]
  · show (m.insertIfNew key value).size = m.size
    rw [TreeMap.size_insertIfNew, if_pos hmem]

theorem contents_erase : contents (m.erase key) = (contents m).erase key := by
  ext1
  · funext key'
    show (m.erase key)[key']? = Function.update (fun k => m[k]?) key none key'
    rw [TreeMap.getElem?_erase]
    by_cases hkey : key' = key
    · rw [hkey, Function.update_self, if_pos ReflCmp.compare_self]
    · rw [Function.update_of_ne hkey, if_neg]
      exact fun heq => hkey (LawfulEqCmp.eq_of_compare heq).symm
  · show (m.erase key).size = if (m[key]?).isSome then m.size - 1 else m.size
    rw [TreeMap.size_erase, TreeMap.contains_eq_isSome_getElem?]

theorem contents_modify (f : V → V) : contents (m.modify key f) =
    ⟨Function.update (contents m).get key ((contents m).get key |>.map f), m.size⟩ := by
  ext1
  · funext key'
    show (m.modify key f)[key']? = Function.update (fun k => m[k]?) key (m[key]?.map f) key'
    rw [TreeMap.getElem?_modify]
    by_cases hkey : key' = key
    · rw [hkey, Function.update_self, if_pos ReflCmp.compare_self]
    · rw [Function.update_of_ne hkey, if_neg]
      exact fun heq => hkey (LawfulEqCmp.eq_of_compare heq).symm
  · exact TreeMap.size_modify

omit [LawfulEqCmp cmp] [DecidableEq K] in
theorem contains_eq : m.contains key = ((contents m).get key).isSome :=
  TreeMap.contains_eq_isSome_getElem?

omit [LawfulEqCmp cmp] [DecidableEq K] in
theorem size_pos {old : V} (h : (contents m).get key = some old) : 0 < m.size := by
  refine Nat.pos_of_ne_zero fun hzero => ?_
  have hempty : m.isEmpty = true := by rw [TreeMap.isEmpty_eq_size_eq_zero, hzero]; rfl
  have habsent : (contents m).get key = none := TreeMap.getElem?_of_isEmpty hempty
  rw [h] at habsent
  cases habsent

/-- What is there is erased before it is inserted anew. -/
theorem contents_replace {old : V} (h : (contents m).get key = some old) :
    contents ((m.erase key).insertIfNew key value) = (contents m).put key value := by
  have hnone : (m.erase key)[key]? = none := TreeMap.getElem?_erase_self
  have hpos := size_pos h
  rw [contents_insertIfNew hnone, contents_erase]
  ext1
  · exact Function.update_idem _ _ _
  · show (if (Function.update (contents m).get key none key).isSome then _ else _) = _
    rw [Function.update_self]
    show ((contents m).erase key).size + 1 = if ((contents m).get key).isSome then m.size else m.size + 1
    rw [Contents.erase, h]
    show m.size - 1 + 1 = m.size
    omega

/-! ## What the sections do -/

/-- A section does as a whole what the method is for. -/
def Does (body : Section (TreeMap K V cmp) (Value V)) (f : Contents K V → Value V × Contents K V) :
    Prop :=
  ∀ m, f (contents m) = ((body.run m).1, contents (body.run m).2)

variable [Inhabited V]

theorem insert_does (o : ω) (key : K) (value : V) :
    Does (insert cmp key value) (spec (.insert o key value)) := by
  intro m
  have hrun : (insert cmp key value).run m = (.flag (!m.contains key), m.insertIfNew key value) := rfl
  rw [hrun, contains_eq]
  simp only [spec]
  cases h : (contents m).get key with
  | some old => exact congrArg (Prod.mk _) (contents_insertIfNew_of_some h).symm
  | none => exact congrArg (Prod.mk _) (contents_insertIfNew h).symm

theorem ensureInsert_does (o : ω) (key : K) (value : V) :
    Does (ensureInsert cmp key value) (spec (.ensureInsert o key value)) := by
  intro m
  have hrun : (ensureInsert cmp key value).run m =
      if m.contains key then (.unit, ((m.insertIfNew key value).erase key).insertIfNew key value)
      else (.unit, m.insertIfNew key value) := by
    have hbind := Section.run_bind (mapInsert cmp key value) (fun second => if (!second) = true then
      mapErase cmp key >>= fun _ => mapInsert cmp key value >>= fun _ => pure .unit
      else (pure .unit : Section (TreeMap K V cmp) (Value V))) m
    refine hbind.trans ?_
    rw [Section.run_ite]
    show (if (!(!m.contains key)) = true then _ else _) = _
    cases m.contains key <;> rfl
  rw [hrun, contains_eq]
  cases h : (contents m).get key with
  | some old =>
      have hkept : contents (m.insertIfNew key value) = contents m := contents_insertIfNew_of_some h
      exact congrArg (Prod.mk _) ((contents_replace (hkept ▸ h)).trans (congrArg _ hkept)).symm
  | none => exact congrArg (Prod.mk _) (contents_insertIfNew h).symm

theorem findOldAndSetNew_does (o : ω) (key : K) (newValue : V) :
    Does (findOldAndSetNew cmp key newValue) (spec (.findOldAndSetNew o key newValue)) := by
  intro m
  have hrun : (findOldAndSetNew cmp key newValue).run m =
      if m.size > 0 then (setNew cmp key newValue ((contents m).get key)).run m
      else (.found none, m) := by
    refine (Section.run_bind _ _ m).trans ?_
    exact Section.run_ite (m.size > 0) _ _ m
  rw [hrun]
  simp only [spec]
  cases h : (contents m).get key with
  | none =>
      have hnone : (setNew cmp key newValue none).run m = (.found none, m) := rfl
      rw [hnone, ite_self]
  | some old =>
      rw [if_pos (size_pos h)]
      exact congrArg (Prod.mk _) (contents_replace h).symm

theorem erase_does (o : ω) (key : K) : Does (erase cmp key) (spec (.erase o key : Op ω K V)) := by
  intro m
  exact congrArg (Prod.mk _) contents_erase.symm

omit [LawfulEqCmp cmp] in
theorem clear_does (o : ω) : Does (clear cmp) (spec (.clear o : Op ω K V)) := by
  intro m
  refine congrArg (Prod.mk _) ?_
  ext1
  · funext key
    exact TreeMap.getElem?_emptyc.symm
  · exact (TreeMap.size_emptyc : (∅ : TreeMap K V cmp).size = 0).symm

omit [TransCmp cmp] [LawfulEqCmp cmp] in
theorem find_does (o : ω) (key : K) : Does (find cmp key) (spec (.find o key : Op ω K V)) :=
  fun _ => rfl

omit [TransCmp cmp] [LawfulEqCmp cmp] in
theorem size_does (o : ω) : Does (size cmp) (spec (.size o : Op ω K V)) := fun _ => rfl

omit [TransCmp cmp] [LawfulEqCmp cmp] in
theorem isEmpty_does (o : ω) : Does (isEmpty cmp) (spec (.isEmpty o : Op ω K V)) := by
  intro m
  have hempty : decide (m.size = 0) = m.isEmpty := TreeMap.isEmpty_eq_size_eq_zero.symm
  exact congrArg (fun b => (Value.flag b, contents m)) hempty

/-! ## References to a value that may have to be inserted first -/

theorem contents_subscript (m : TreeMap K V cmp) (key : K) :
    contents (m.insertIfNew key default) = ((contents m).force default key).2 := by
  unfold Contents.force
  cases h : (contents m).get key with
  | some value => exact contents_insertIfNew_of_some h
  | none => exact contents_insertIfNew h

theorem get_force (c : Contents K V) (key : K) :
    (c.force default key).2.get key = some (c.force default key).1 := by
  unfold Contents.force
  cases h : c.get key with
  | some value => exact h
  | none => exact Function.update_self _ _ _

theorem readVal_does (o : ω) (key : K) : Does (readVal cmp key) (spec (.readVal o key : Op ω K V)) := by
  intro m
  have hrun : (readVal cmp key).run m =
      (.value ((m.insertIfNew key default).getD key default), m.insertIfNew key default) := rfl
  have hvalue : (m.insertIfNew key default)[key]? = some ((contents m).force default key).1 := by
    have hget := get_force (contents m) key
    rw [← contents_subscript] at hget
    exact hget
  rw [hrun, contents_subscript, TreeMap.getD_eq_getD_getElem?, hvalue]
  rfl

theorem changeValueByLambda_does (o : ω) (key : K) (callback : V → V) :
    Does (changeValueByLambda cmp key callback) (spec (.changeValueByLambda o key callback)) := by
  intro m
  have hrun : (changeValueByLambda cmp key callback).run m =
      (.unit, (m.insertIfNew key default).modify key callback) := rfl
  rw [hrun, contents_modify]
  refine congrArg (Prod.mk _) ?_
  have hsize : (m.insertIfNew key default).size = ((contents m).force default key).2.size :=
    congrArg Contents.size (contents_subscript m key)
  rw [contents_subscript, hsize, get_force]
  ext1
  · rfl
  · show (if _ then _ else _) = _
    rw [get_force]
    rfl

/-! ## The loop of `Iterate` -/

omit [Inhabited V] in
/-- It has called back for the keys that are behind it. -/
theorem run_iterateLoop (callback : K → V → V) (keys : List K) (hkeys : keys.Nodup)
    (m : TreeMap K V cmp) :
    ((iterateLoop cmp callback keys).run m).1 = .unit ∧
      contents ((iterateLoop cmp callback keys).run m).2 =
        ⟨fun key => if key ∈ keys then ((contents m).get key).map (callback key)
          else (contents m).get key, m.size⟩ := by
  induction keys generalizing m with
  | nil =>
      refine ⟨rfl, ?_⟩
      ext1
      · funext key
        show (contents m).get key =
          if key ∈ [] then ((contents m).get key).map (callback key) else (contents m).get key
        rw [if_neg List.not_mem_nil]
      · rfl
  | cons key keys ih =>
      obtain ⟨hkey, hnodup⟩ := List.nodup_cons.1 hkeys
      obtain ⟨hunit, hcontents⟩ := ih hnodup (m.modify key (callback key))
      refine ⟨hunit, hcontents.trans ?_⟩
      ext1
      · funext key'
        simp only [contents_modify]
        by_cases heq : key' = key
        · rw [heq, if_neg hkey, if_pos List.mem_cons_self, Function.update_self]
        · rw [Function.update_of_ne heq]
          simp only [List.mem_cons, heq, false_or]
      · exact TreeMap.size_modify

theorem iterate_does (o : ω) (callback : K → V → V) :
    Does (iterate cmp callback) (spec (.iterate o callback)) := by
  intro m
  have hrun : (iterate cmp callback).run m =
      if m.isEmpty then (.unit, m) else (iterateLoop cmp callback m.keys).run m := by
    rw [iterate, Section.run_bind, Section.run_call, Section.run_ite]
    cases m.isEmpty <;> rfl
  obtain ⟨hunit, hcontents⟩ := run_iterateLoop callback m.keys TreeMap.nodup_keys m
  have hall : (⟨fun key => ((contents m).get key).map (callback key), m.size⟩ : Contents K V) =
      ⟨fun key => if key ∈ m.keys then ((contents m).get key).map (callback key)
        else (contents m).get key, m.size⟩ := by
    ext1
    · funext key
      show ((contents m).get key).map (callback key) = if _ then _ else _
      split
      · rfl
      · rename_i hkey
        rw [TreeMap.mem_keys, TreeMap.mem_iff_isSome_getElem?] at hkey
        have hnone : (contents m).get key = none := Option.not_isSome_iff_eq_none.1 hkey
        rw [hnone]
        rfl
    · rfl
  rw [hrun]
  cases hempty : m.isEmpty with
  | false =>
      rw [if_neg Bool.false_ne_true]
      exact Prod.ext hunit.symm (hall.trans hcontents.symm)
  | true =>
      rw [if_pos rfl]
      refine congrArg (Prod.mk _) ?_
      ext1
      · funext key
        have hnone : (contents m).get key = none := TreeMap.getElem?_of_isEmpty hempty
        show ((contents m).get key).map _ = (contents m).get key
        rw [hnone]
        rfl
      · rfl

/-! ## Histories -/

omit [TransCmp cmp] [LawfulEqCmp cmp] in
theorem single_implements {op : Op ω K V} {body : Section (TreeMap K V cmp) (Value V)}
    (h : Does body (spec op)) : Implements contents (single cmp op op.target body)
      (Plan.single op.target fun c => ((op, (spec op c).1), (spec op c).2)) := by
  refine Implements.single fun m => ?_
  rw [h m, Section.run_bind]
  rfl

variable [DecidableEq ω]

theorem implements (op : Op ω K V) : Implements (contents : TreeMap K V cmp → _) (code cmp op) (plan op) := by
  cases op with
  | insert o key value => exact single_implements (insert_does o key value)
  | ensureInsert o key value => exact single_implements (ensureInsert_does o key value)
  | find o key => exact single_implements (find_does o key)
  | findOldAndSetNew o key newValue => exact single_implements (findOldAndSetNew_does o key newValue)
  | erase o key => exact single_implements (erase_does o key)
  | clear o => exact single_implements (clear_does o)
  | size o => exact single_implements (size_does o)
  | isEmpty o => exact single_implements (isEmpty_does o)
  | readVal o key => exact single_implements (readVal_does o key)
  | changeValueByLambda o key callback =>
      exact single_implements (changeValueByLambda_does o key callback)
  | iterate o callback => exact single_implements (iterate_does o callback)
  | assign o rhs =>
      show Implements contents (if o = rhs then _ else _) (if o = rhs then _ else _)
      split
      · exact .ret _
      · exact .lock _ _ _ _ (fun _ => rfl) fun m => .lock _ _ _ _ (fun _ => rfl) fun _ => .ret _

variable {ι : Type} [DecidableEq ι]

/-- **Linearizability.** Whatever threads call on whatever maps, and however they are interleaved, what
they get back could as well have come from contents on which each call acts at once, somewhere between
its beginning and its end; an assignment takes its copy at once, and later stores it at once. -/
theorem linearizable (object : ω → TreeMap K V cmp) (as : List (ι × Act (Op ω K V))) :
    ∃ bs : List (ι × Act (Op ω K V)),
      ((Planned.new fun o => contents (object o)).run plan bs).history =
        ((State.new object).run (code cmp) as).history ∧
      ∀ o, ((State.new object).run (code cmp) as).owner o = none →
        ((Planned.new fun o => contents (object o)).run plan bs).object o =
          contents (((State.new object).run (code cmp) as).object o) :=
  history_of_plans implements object as

/-- A call of `Insert` for the key has returned `true`. -/
def inserted (o : ω) (key : K) : Op ω K V × Value V → Nat
  | (.insert o' key' _, .flag true) => if o' = o ∧ key' = key then 1 else 0
  | _ => 0

/-- A call that can take away the key. -/
def removes (o : ω) (key : K) : Op ω K V → Nat
  | .erase o' key' => if o' = o ∧ key' = key then 1 else 0
  | .clear o' | .assign o' _ => if o' = o then 1 else 0
  | _ => 0

/-- The key is there. -/
def present (key : K) (c : Contents K V) : Nat := if (c.get key).isSome then 1 else 0

section Accounts

variable {o : ω} {c : Contents K V}

omit [DecidableEq K] [Inhabited V] in
theorem present_le (key : K) (c : Contents K V) : present key c ≤ 1 := by
  unfold present
  split <;> omega

omit [Inhabited V] in
theorem get_put_self (key : K) (value : V) (c : Contents K V) : (c.put key value).get key = some value :=
  Function.update_self _ _ _

omit [Inhabited V] in
theorem present_put_self (key : K) (value : V) (c : Contents K V) : present key (c.put key value) = 1 := by
  unfold present
  rw [get_put_self]
  rfl

omit [Inhabited V] in
theorem present_put (key key' : K) (value : V) (c : Contents K V) :
    present key c ≤ present key (c.put key' value) := by
  by_cases hkey : key = key'
  · rw [← hkey, present_put_self]
    exact present_le key c
  · have hget : (c.put key' value).get key = c.get key := Function.update_of_ne hkey _ _
    unfold present
    rw [hget]

omit [Inhabited V] in
theorem present_erase (key key' : K) (c : Contents K V) (hkey : key' ≠ key) :
    present key (c.erase key') = present key c := by
  have hget : (c.erase key').get key = c.get key := Function.update_of_ne hkey.symm _ _
  unfold present
  rw [hget]

omit [Inhabited V] in
theorem present_force (key key' : K) (init : V) (c : Contents K V) :
    present key c ≤ present key (c.force init key').2 := by
  unfold Contents.force
  cases c.get key' with
  | some value => exact le_rfl
  | none => exact present_put key key' init c

/-- A method of one section pays for what it takes away. -/
theorem single_pays {key : K} {op : Op ω K V}
    (hown : op.target = o → ∀ c, inserted o key (op, (spec op c).1) + present key c ≤
      removes o key op + present key (spec op c).2)
    (hother : op.target ≠ o → ∀ v, inserted o key (op, v) = 0) :
    (Plan.single op.target fun c => ((op, (spec op c).1), (spec op c).2)).Pays o
      (fun c => present key c) (inserted o key) (removes o key op) := by
  by_cases htarget : op.target = o
  · rw [htarget]
    exact .own _ _ _ (fun c => inserted o key (op, (spec op c).1)) (fun c => .ret _ _ le_rfl)
      fun c => by exact_mod_cast hown htarget c
  · exact .other _ _ _ _ htarget fun c => .ret _ _ ((hother htarget _).trans_le (Nat.zero_le _))

theorem plan_pays (key : K) (op : Op ω K V) :
    (plan op).Pays o (fun c => present key c) (inserted o key) (removes o key op) := by
  cases op with
  | insert o' key' value =>
      refine single_pays (fun htarget c => ?_) fun htarget v => ?_
      · have hto : o' = o := htarget
        simp only [spec]
        cases hget : c.get key' with
        | some old => exact Nat.le_of_eq rfl
        | none =>
            by_cases hkey : key' = key
            · have hzero : present key c = 0 := by
                rw [present, ← hkey, hget]
                rfl
              simp only [inserted, removes, hto, hkey, and_self, if_true, hzero]
              rw [present_put_self]
            · simp only [inserted, removes, hkey, and_false, if_false]
              have hput := present_put key key' value c
              omega
      · cases v with
        | flag b =>
            cases b with
            | false => rfl
            | true => exact if_neg fun hand => htarget hand.1
        | _ => rfl
  | ensureInsert o' key' value =>
      refine single_pays (fun _ c => ?_) fun _ _ => rfl
      have hput := present_put key key' value c
      simp only [inserted, removes, spec]
      omega
  | find o' key' => exact single_pays (fun _ c => Nat.le_of_eq rfl) fun _ _ => rfl
  | findOldAndSetNew o' key' newValue =>
      refine single_pays (fun _ c => ?_) fun _ _ => rfl
      simp only [inserted, removes, spec]
      cases c.get key' with
      | none => exact le_rfl
      | some old =>
          have hput := present_put key key' newValue c
          simp only
          omega
  | erase o' key' =>
      refine single_pays (fun htarget c => ?_) fun _ _ => rfl
      have hto : o' = o := htarget
      by_cases hkey : key' = key
      · have hle := present_le key c
        simp only [inserted, removes, hto, hkey, and_self, if_true]
        omega
      · simp only [inserted, removes, hkey, and_false, if_false, spec]
        rw [present_erase key key' c hkey]
  | clear o' =>
      refine single_pays (fun htarget c => ?_) fun _ _ => rfl
      have hle := present_le key c
      have hto : o' = o := htarget
      simp only [inserted, removes, hto, if_true]
      omega
  | size o' => exact single_pays (fun _ c => Nat.le_of_eq rfl) fun _ _ => rfl
  | isEmpty o' => exact single_pays (fun _ c => Nat.le_of_eq rfl) fun _ _ => rfl
  | readVal o' key' =>
      refine single_pays (fun _ c => ?_) fun _ _ => rfl
      have hforce := present_force key key' default c
      simp only [inserted, removes, spec]
      omega
  | changeValueByLambda o' key' callback =>
      refine single_pays (fun _ c => ?_) fun _ _ => rfl
      have hforce := present_force key key' default c
      have hput := present_put key key' (callback (c.force default key').1) (c.force default key').2
      simp only [inserted, removes, spec]
      omega
  | iterate o' callback =>
      refine single_pays (fun _ c => ?_) fun _ _ => rfl
      refine Nat.le_of_eq ?_
      simp only [inserted, removes, spec, present, Option.isSome_map]
  | assign o' rhs =>
      have hstore : ∀ tmp, (Plan.perform o' (fun _ : Contents K V => tmp) fun _ =>
          .ret ((.assign o' rhs, .unit) : Op ω K V × Value V)).Pays o (fun c => present key c)
            (inserted o key) (removes o key (.assign o' rhs : Op ω K V)) := by
        intro tmp
        by_cases hto : o' = o
        · have hone : removes o key (.assign o' rhs : Op ω K V) = 1 := if_pos hto
          rw [hone, hto]
          refine .own _ _ _ (fun _ => 0) (fun _ => .ret _ _ le_rfl) fun c => ?_
          have hle := present_le key c
          omega
        · exact .other _ _ _ _ hto fun _ => .ret _ _ (Nat.zero_le _)
      show (if o' = rhs then _ else _ : Plan ω _ _).Pays _ _ _ _
      split
      · exact .ret _ _ (Nat.zero_le _)
      · by_cases hfrom : rhs = o
        · rw [hfrom]
          exact .own _ _ _ (fun _ => _) (fun c => hfrom ▸ hstore c) fun _ => le_rfl
        · exact .other _ _ _ _ hfrom hstore

end Accounts

/-- **An insertion is won once.** However many threads insert a key into a map, not more of these calls
return `true` than one and those that can have taken the key away: calls of `Erase` for it, of `Clear`,
and assignments to the map. -/
theorem insert_won [Fintype ι] (o : ω) (key : K) (object : ω → TreeMap K V cmp)
    (as : List (ι × Act (Op ω K V))) :
    total (Event.gain (inserted o key)) ((State.new object).run (code cmp) as).history ≤
      1 + total (Event.cost (removes o key)) ((State.new object).run (code cmp) as).history := by
  obtain ⟨bs, hhistory, -⟩ := history_of_plans (ι := ι) (implements (ω := ω)) object as
  have hle := gains_le (ι := ι) (plan_pays (o := o) key) (fun o => contents (object o)) bs
  rw [hhistory] at hle
  have hone := present_le key (((Planned.new fun o => contents (object o)).run plan bs).object o)
  omega

end

/-! ## Two threads, two maps -/

/-- Both insert the key 7 into the map `true`; then each map is assigned to the other, and both threads
have the copy they want to store. -/
def crosswise : List (Bool × Act (Op Bool Nat Nat)) :=
  [(true, .call (.insert true 7 1)), (false, .call (.insert true 7 2)), (true, .go), (false, .go),
    (true, .go), (true, .go), (true, .go), (false, .go), (false, .go), (false, .go), (false, .go),
    (true, .call (.assign true false)), (false, .call (.assign false true)), (true, .go), (true, .go),
    (true, .go), (false, .go), (false, .go), (false, .go)]

/-- What has come of it. -/
def crossed : State Bool Bool (TreeMap Nat Nat compare) (Op Bool Nat Nat × Value Nat) (Op Bool Nat Nat) :=
  (State.new fun _ => ∅).run (code compare) crosswise

theorem linearizable_crosswise : ∃ bs : List (Bool × Act (Op Bool Nat Nat)),
    ((Planned.new fun _ => contents (∅ : TreeMap Nat Nat compare)).run plan bs).history =
      crossed.history := by
  obtain ⟨bs, hhistory, -⟩ := linearizable (fun _ : Bool => (∅ : TreeMap Nat Nat compare)) crosswise
  exact ⟨bs, hhistory⟩

theorem insert_won_crosswise : total (Event.gain (inserted true 7)) crossed.history = 1 ∧
    total (Event.gain (inserted true 7)) crossed.history ≤
      1 + total (Event.cost (removes true 7)) crossed.history :=
  ⟨by decide +kernel, insert_won true 7 _ crosswise⟩

end CUtils.SafeMaps
