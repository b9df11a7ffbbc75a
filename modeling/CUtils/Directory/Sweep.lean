import CUtils.Directory.Model

/-!
# What a deletion removes

`sweep` says what is removed below a directory, without an order of calls: reading stops at the
first file that cannot be removed, a directory that cannot be opened is passed over, and a directory
goes if everything in it has gone. `ForceRemoveDirectoryInternal` removes exactly that
(`internalLoop_sweeps`), and what is removed can be told apart into files that go as they are read
and directories that go by the state of their entries (`mem_sweep`).
-/

namespace CUtils.Directory

/-- A file that stays, so that its directory is not read any further. -/
def Faults.stuck (f : Faults) (q : Path) : Bool := f.faccessat q || f.unlinkat q

/-- A directory that is passed over. -/
def Faults.shut (f : Faults) (q : Path) : Bool := f.openat q || f.fdopendir q

/-! ## Paths -/

namespace Entries

theorem length_of_mem_paths {es : Entries} {p c : Path} (h : c ∈ es.paths p) :
    p.length < c.length := by
  induction es generalizing p with
  | nil => exact absurd h (by simp [paths])
  | dots rest ih => exact ih h
  | file name rest ih =>
      rcases List.mem_cons.1 h with rfl | h
      · simp
      · exact ih h
  | dir name sub rest ihsub ih =>
      rcases List.mem_cons.1 h with rfl | h
      · simp
      · rcases List.mem_append.1 h with h | h
        · have := ihsub h
          simp only [List.length_cons] at this
          omega
        · exact ih h

theorem self_not_mem_paths {es : Entries} {p : Path} : p ∉ es.paths p := fun h =>
  Nat.lt_irrefl _ (length_of_mem_paths h)

/-- Everything below the directory `p`; the flag is set for directories. -/
def marked (p : Path) : Entries → List (Path × Bool)
  | nil => []
  | dots rest => rest.marked p
  | file name rest => (name :: p, false) :: rest.marked p
  | dir name sub rest => (name :: p, true) :: (sub.marked (name :: p) ++ rest.marked p)

theorem map_marked (p : Path) (es : Entries) : (es.marked p).map Prod.fst = es.paths p := by
  induction es generalizing p with
  | nil => rfl
  | dots rest ih => exact ih p
  | file name rest ih => exact congrArg _ (ih p)
  | dir name sub rest ihsub ih =>
      refine congrArg _ (List.map_append.trans ?_)
      rw [ihsub, ih]

/-- With an entry its directory is there too. -/
theorem tail_mem_marked {es : Entries} {p c : Path} {b : Bool} (h : (c, b) ∈ es.marked p) :
    c.tail = p ∨ (c.tail, true) ∈ es.marked p := by
  induction es generalizing p with
  | nil => exact absurd h (by simp [marked])
  | dots rest ih => exact ih h
  | file name rest ih =>
      rcases List.mem_cons.1 h with heq | h
      · obtain ⟨rfl, -⟩ := Prod.mk.inj heq
        exact Or.inl rfl
      · exact (ih h).imp_right fun h => List.mem_cons_of_mem _ h
  | dir name sub rest ihsub ih =>
      rcases List.mem_cons.1 h with heq | h
      · obtain ⟨rfl, -⟩ := Prod.mk.inj heq
        exact Or.inl rfl
      · rcases List.mem_append.1 h with h | h
        · right
          rcases ihsub h with h | h
          · rw [h]
            exact List.mem_cons_self ..
          · exact List.mem_cons_of_mem _ (List.mem_append_left _ h)
        · exact (ih h).imp_right fun h => List.mem_cons_of_mem _ (List.mem_append_right _ h)

theorem exists_marked {es : Entries} {p c : Path} : c ∈ es.paths p ↔ ∃ b, (c, b) ∈ es.marked p := by
  rw [← map_marked, List.mem_map]
  constructor
  · rintro ⟨⟨_, b⟩, h, rfl⟩
    exact ⟨b, h⟩
  · exact fun ⟨b, h⟩ => ⟨_, h, rfl⟩

theorem tail_mem_paths {es : Entries} {p c : Path} (h : c ∈ es.paths p) :
    c.tail = p ∨ c.tail ∈ es.paths p := by
  obtain ⟨b, hb⟩ := exists_marked.1 h
  exact (tail_mem_marked hb).imp_right fun htail => exists_marked.2 ⟨_, htail⟩

end Entries

variable {v : Volume}

theorem mem_children {p c : Path} : c ∈ v.children p ↔ c ∈ v.paths ∧ c.tail = p := by
  simp [Volume.children]

theorem self_not_mem_children (p : Path) : p ∉ v.children p := by
  intro h
  obtain ⟨hp, htail⟩ := mem_children.1 h
  have hlen := Entries.length_of_mem_paths hp
  have := congrArg List.length htail
  simp only [List.length_tail, List.length_nil] at *
  omega

/-! ## Parts of the volume -/

/-- `es` are entries of the directory `p` of the volume, with all that is below them. -/
structure Placed (v : Volume) (p : Path) (es : Entries) : Prop where
  nodup : (es.paths p).Nodup
  closed : ∀ c ∈ es.paths p, ∀ x ∈ v.children c, x ∈ es.paths p

theorem Placed.root (v : Volume) : Placed v [] v.root :=
  ⟨v.distinct, fun _ _ _ hx => (mem_children.1 hx).1⟩

namespace Placed

variable {p : Path} {name : String} {s r : Entries}

theorem dots (h : Placed v p (.dots r)) : Placed v p r := ⟨h.nodup, h.closed⟩

/-- What is below `c` is found where `c` is. -/
theorem rest_closed {l : List Path} (hnodup : (l ++ r.paths p).Nodup)
    (hclosed : ∀ c ∈ r.paths p, ∀ x ∈ v.children c, x ∈ l ++ r.paths p)
    (hl : ∀ c ∈ l, c.tail = p ∨ c.tail ∈ l) : Placed v p r := by
  refine ⟨(List.nodup_append.1 hnodup).2.1, fun c hc x hx => ?_⟩
  rcases List.mem_append.1 (hclosed c hc x hx) with hmem | hmem
  · rcases hl x hmem with htail | htail
    · rw [(mem_children.1 hx).2] at htail
      subst htail
      exact absurd hc Entries.self_not_mem_paths
    · rw [(mem_children.1 hx).2] at htail
      exact absurd rfl ((List.nodup_append.1 hnodup).2.2 _ htail _ hc)
  · exact hmem

theorem file (h : Placed v p (.file name r)) : Placed v p r :=
  rest_closed (l := [name :: p]) h.nodup (fun c hc => h.closed c (List.mem_cons_of_mem _ hc))
    fun c hc => Or.inl (by rw [List.mem_singleton.1 hc]; rfl)

theorem rest (h : Placed v p (.dir name s r)) : Placed v p r := by
  refine rest_closed (l := (name :: p) :: s.paths (name :: p)) h.nodup
    (fun c hc => h.closed c (List.mem_cons_of_mem _ (List.mem_append_right _ hc))) fun c hc => ?_
  rcases List.mem_cons.1 hc with rfl | hc
  · exact Or.inl rfl
  · right
    rcases Entries.tail_mem_paths hc with hc | hc
    · rw [hc]
      exact List.mem_cons_self ..
    · exact List.mem_cons_of_mem _ hc

/-- The directory with what is in it, and the entries after it. -/
theorem disjoint (h : Placed v p (.dir name s r)) :
    ∀ c ∈ (name :: p) :: s.paths (name :: p), ∀ x ∈ r.paths p, c ≠ x :=
  (List.nodup_append.1 (show ((name :: p) :: s.paths (name :: p) ++ r.paths p).Nodup from
    h.nodup)).2.2

/-- An entry whose parent is the directory or below it does not come after it. -/
theorem mem_sub (h : Placed v p (.dir name s r)) {c x : Path}
    (hc : c ∈ (name :: p) :: s.paths (name :: p)) (hx : x ∈ v.children c) :
    x ∈ s.paths (name :: p) := by
  have htail := (mem_children.1 hx).2
  have hmem : c ∈ (Entries.dir name s r).paths p := by
    rcases List.mem_cons.1 hc with rfl | hc
    · exact List.mem_cons_self ..
    · exact List.mem_cons_of_mem _ (List.mem_append_left _ hc)
  have hlen : p.length < c.length := Entries.length_of_mem_paths hmem
  rcases List.mem_cons.1 (h.closed c hmem x hx) with rfl | hin
  · rw [List.tail_cons] at htail
    subst htail
    exact absurd hlen (Nat.lt_irrefl _)
  · rcases List.mem_append.1 hin with hin | hin
    · exact hin
    · rcases Entries.tail_mem_paths hin with htl | htl
      · rw [htail] at htl
        subst htl
        exact absurd hlen (Nat.lt_irrefl _)
      · rw [htail] at htl
        exact absurd rfl (h.disjoint _ hc _ htl)

theorem sub (h : Placed v p (.dir name s r)) : Placed v (name :: p) s :=
  ⟨(List.nodup_append.1 (List.nodup_cons.1 h.nodup).2).1,
    fun _ hc _ hx => h.mem_sub (List.mem_cons_of_mem _ hc) hx⟩

theorem children_mem (h : Placed v p (.dir name s r)) {x : Path}
    (hx : x ∈ v.children (name :: p)) : x ∈ s.paths (name :: p) :=
  h.mem_sub (List.mem_cons_self ..) hx

/-- There is nothing in a file. -/
theorem children_file (h : Placed v p (.file name r)) : v.children (name :: p) = [] := by
  refine List.eq_nil_iff_forall_not_mem.2 fun x hx => ?_
  have htail := (mem_children.1 hx).2
  rcases List.mem_cons.1 (h.closed _ (List.mem_cons_self ..) x hx) with rfl | hin
  · exact absurd htail (by simp)
  · rcases Entries.tail_mem_paths hin with htl | htl
    · rw [htail] at htl
      exact absurd htl (by simp)
    · rw [htail] at htl
      exact (List.nodup_cons.1 h.nodup).1 htl

end Placed

/-! ## The sweep -/

variable (v)

/-- The directory `q` can be removed once `below` has been removed. -/
def Volume.goes (q : Path) (below : List Path) : Bool :=
  v.faults.unlinkat q = false ∧ ∀ c ∈ v.children q, c ∈ below

/-- What is removed below `p`, of the entries that are given. -/
def sweep (p : Path) : Entries → List Path
  | .nil => []
  | .dots rest => sweep p rest
  | .file name rest =>
      if v.faults.stuck (name :: p) then [] else (name :: p) :: sweep p rest
  | .dir name sub rest =>
      if v.faults.shut (name :: p) then sweep p rest
      else
        let below := if v.faults.dirfd (name :: p) then [] else sweep (name :: p) sub
        (if v.goes (name :: p) below then [name :: p] else []) ++ below ++ sweep p rest

/-- What is removed below an open directory. -/
def Dir.swept (x : Dir) : List Path :=
  if v.faults.dirfd x.path then [] else sweep v x.path x.entries

variable {v} {p c : Path} {name : String} {sub rest : Entries}

theorem sweep_file (h : v.faults.stuck (name :: p) = false) :
    sweep v p (.file name rest) = (name :: p) :: sweep v p rest := if_neg (Bool.eq_false_iff.1 h)

theorem mem_sweep_file (h : v.faults.stuck (name :: p) = false) :
    c ∈ sweep v p (.file name rest) ↔ c = name :: p ∨ c ∈ sweep v p rest := by
  rw [sweep_file h, List.mem_cons]

theorem sweep_stuck (h : v.faults.stuck (name :: p) = true) :
    sweep v p (.file name rest) = [] := if_pos h

theorem sweep_shut (h : v.faults.shut (name :: p) = true) :
    sweep v p (.dir name sub rest) = sweep v p rest := if_pos h

theorem sweep_dir (h : v.faults.shut (name :: p) = false) :
    sweep v p (.dir name sub rest) =
      (if v.goes (name :: p) (Dir.swept v ⟨name :: p, sub⟩) then [name :: p] else []) ++
        Dir.swept v ⟨name :: p, sub⟩ ++ sweep v p rest := if_neg (Bool.eq_false_iff.1 h)

theorem mem_sweep_dir (h : v.faults.shut (name :: p) = false) :
    c ∈ sweep v p (.dir name sub rest) ↔
      (c = name :: p ∧ v.goes (name :: p) (Dir.swept v ⟨name :: p, sub⟩) = true) ∨
        c ∈ Dir.swept v ⟨name :: p, sub⟩ ∨ c ∈ sweep v p rest := by
  rw [sweep_dir h]
  cases v.goes (name :: p) (Dir.swept v ⟨name :: p, sub⟩) with
  | true => simp
  | false => simp

theorem sweep_subset {es : Entries} : sweep v p es ⊆ es.paths p := by
  intro c hc
  induction es generalizing p with
  | nil => exact hc
  | dots rest ih => exact ih hc
  | file name rest ih =>
      cases h : v.faults.stuck (name :: p) with
      | true =>
          rw [sweep_stuck h] at hc
          exact absurd hc (by simp)
      | false =>
          rcases (mem_sweep_file h).1 hc with rfl | hc
          · exact List.mem_cons_self ..
          · exact List.mem_cons_of_mem _ (ih hc)
  | dir name sub rest ihsub ih =>
      cases h : v.faults.shut (name :: p) with
      | true =>
          rw [sweep_shut h] at hc
          exact List.mem_cons_of_mem _ (List.mem_append_right _ (ih hc))
      | false =>
          rcases (mem_sweep_dir h).1 hc with ⟨rfl, -⟩ | hc | hc
          · exact List.mem_cons_self ..
          · rw [Dir.swept] at hc
            split at hc
            · exact absurd hc (by simp)
            · exact List.mem_cons_of_mem _ (List.mem_append_left _ (ihsub hc))
          · exact List.mem_cons_of_mem _ (List.mem_append_right _ (ih hc))

theorem Dir.swept_subset {x : Dir} : x.swept v ⊆ x.entries.paths x.path := by
  rw [Dir.swept]
  split
  · exact List.nil_subset _
  · exact sweep_subset

/-- What is removed in a round for a directory lies in it, or is the directory itself. -/
theorem mem_of_round
    (h : c ∈ (if v.goes (name :: p) (Dir.swept v ⟨name :: p, sub⟩) then [name :: p] else []) ++
      Dir.swept v ⟨name :: p, sub⟩) : c ∈ (name :: p) :: sub.paths (name :: p) := by
  rcases List.mem_append.1 h with h | h
  · split at h
    · rw [List.mem_singleton.1 h]
      exact List.mem_cons_self ..
    · exact absurd h (by simp)
  · exact List.mem_cons_of_mem _ (Dir.swept_subset h)

/-! ## The recursion -/

theorem unlinkat_fst (d : Disk) (fd : Path) (name : String) (b : Bool) :
    (d.unlinkat v fd name b).1 = d.unlinks v fd name b := by
  rw [Disk.unlinkat]
  split
  · rename_i h
    exact h.symm
  · rename_i h
    exact (Bool.not_eq_true _ ▸ h).symm

theorem unlinkat_opened (d : Disk) (fd : Path) (name : String) (b : Bool) :
    (d.unlinkat v fd name b).2.opened = d.opened := by
  rw [Disk.unlinkat]
  split
  · rfl
  · rfl

theorem unlinkat_gone (d : Disk) (fd : Path) (name : String) (b : Bool) :
    (d.unlinkat v fd name b).2.gone =
      if d.unlinks v fd name b then (name :: fd) :: d.gone else d.gone := by
  rw [Disk.unlinkat]
  split
  · rfl
  · rfl

theorem access_eq {d : Disk} (hopen : p ∈ d.opened) (hnew : name :: p ∉ d.gone) :
    d.access v p name = !v.faults.faccessat (name :: p) := by
  cases h : v.faults.faccessat (name :: p) with
  | true => simp [Disk.access, h]
  | false => simp [Disk.access, h, hopen, hnew]

theorem unlinks_file {d : Disk} (hopen : p ∈ d.opened) (hnew : name :: p ∉ d.gone) :
    d.unlinks v p name false = !v.faults.unlinkat (name :: p) := by
  cases h : v.faults.unlinkat (name :: p) with
  | true => simp [Disk.unlinks, h]
  | false => simp [Disk.unlinks, h, hopen, hnew]

theorem unlinks_dir {d : Disk} (hopen : p ∈ d.opened) (hnew : name :: p ∉ d.gone) :
    d.unlinks v p name true = v.goes (name :: p) d.gone := by
  simp [Disk.unlinks, Volume.goes, hopen, hnew]

/-- What has been removed elsewhere does not matter for a directory. -/
theorem goes_congr {q : Path} {l l' : List Path}
    (h : ∀ x ∈ v.children q, x ∈ l ↔ x ∈ l') : v.goes q l = v.goes q l' := by
  simp only [Volume.goes, forall₂_congr h]

theorem openDir_closeDir_opened (d : Disk) (q : Path) :
    ((d.openDir q).closeDir q).opened = d.opened := by
  simp [Disk.openDir, Disk.closeDir]

/-- `d'` is `d` with exactly the paths of `l` removed in addition. -/
structure Removes (l : List Path) (d d' : Disk) : Prop where
  opened : d'.opened = d.opened
  gone : ∀ c, c ∈ d'.gone ↔ c ∈ l ∨ c ∈ d.gone

theorem Removes.nil {d d' : Disk} (hopened : d'.opened = d.opened) (hgone : d'.gone = d.gone) :
    Removes [] d d' :=
  ⟨hopened, fun c => by rw [hgone]; simp⟩

theorem Removes.trans {l l' : List Path} {d d' d'' : Disk} (h : Removes l d d')
    (h' : Removes l' d' d'') : Removes (l ++ l') d d'' :=
  ⟨h'.opened.trans h.opened, fun c => by
    rw [h'.gone, h.gone, List.mem_append, ← or_assoc, or_comm (a := c ∈ l')]⟩

/-- The end of a round for a directory that has been read: it is closed, and removed if it can
be. -/
theorem Removes.round {l : List Path} {d d₁ : Disk} (h : Removes l (d.openDir (name :: p)) d₁)
    (hopen : p ∈ d.opened) (hself : name :: p ∉ l ∧ name :: p ∉ d.gone)
    (hchildren : ∀ c ∈ v.children (name :: p), c ∉ d.gone) :
    Removes ((if v.goes (name :: p) l then [name :: p] else []) ++ l) d
      ((d₁.closeDir (name :: p)).unlinkat v p name true).2 := by
  have hnot : name :: p ∉ (d₁.closeDir (name :: p)).gone := fun hmem =>
    ((h.gone _).1 hmem).elim hself.1 hself.2
  have hopened : (d₁.closeDir (name :: p)).opened = d.opened := by
    simp [Disk.closeDir, h.opened, Disk.openDir]
  have hgoes : (d₁.closeDir (name :: p)).unlinks v p name true = v.goes (name :: p) l := by
    rw [unlinks_dir (by rw [hopened]; exact hopen) hnot]
    exact goes_congr fun c hc => (h.gone c).trans (or_iff_left (hchildren c hc))
  refine ⟨by rw [unlinkat_opened, hopened], fun c => ?_⟩
  rw [unlinkat_gone, hgoes]
  cases v.goes (name :: p) l with
  | true =>
      simp only [if_true, List.mem_cons, List.cons_append, List.nil_append, or_assoc]
      exact or_congr_right (h.gone c)
  | false => exact h.gone c

/-- **The recursion removes what `sweep` says**, and closes what it has opened. -/
theorem internalLoop_sweeps {es : Entries} (hes : Placed v p es) {d : Disk} (ret : Bool)
    (hopen : p ∈ d.opened) (hnew : ∀ c ∈ es.paths p, c ∉ d.gone) :
    Removes (sweep v p es) d (internalLoop v p es ret d).2 := by
  induction es generalizing p d ret with
  | nil => exact Removes.nil rfl rfl
  | dots rest ih => exact ih hes.dots ret hopen hnew
  | file name rest ih =>
      have hself := hnew (name :: p) (List.mem_cons_self ..)
      rw [internalLoop, access_eq hopen hself]
      cases haccess : v.faults.faccessat (name :: p) with
      | true =>
          rw [sweep_stuck (by simp [Faults.stuck, haccess])]
          exact Removes.nil rfl rfl
      | false =>
          simp only [Bool.not_false, if_true, unlinkat_fst, unlinks_file hopen hself]
          cases hunlink : v.faults.unlinkat (name :: p) with
          | true =>
              rw [sweep_stuck (by simp [Faults.stuck, hunlink])]
              refine Removes.nil (unlinkat_opened ..) ?_
              rw [Bool.not_true, Bool.not_false, if_pos rfl, unlinkat_gone,
                unlinks_file hopen hself, hunlink]
              rfl
          | false =>
              have hstuck : v.faults.stuck (name :: p) = false := by
                simp [Faults.stuck, haccess, hunlink]
              have hgone : (d.unlinkat v p name false).2.gone = (name :: p) :: d.gone := by
                rw [unlinkat_gone, unlinks_file hopen hself, hunlink]
                rfl
              have hnot : ∀ c ∈ rest.paths p, c ∉ (d.unlinkat v p name false).2.gone := by
                intro c hc hmem
                rw [hgone] at hmem
                rcases List.mem_cons.1 hmem with rfl | hmem
                · exact (List.nodup_cons.1 hes.nodup).1 hc
                · exact hnew c (List.mem_cons_of_mem _ hc) hmem
              have h := ih hes.file ret (by rw [unlinkat_opened]; exact hopen) hnot
              simp only [Bool.not_false, Bool.not_true, Bool.false_eq_true, if_false]
              refine ⟨by rw [h.opened, unlinkat_opened], fun c => ?_⟩
              rw [h.gone, hgone, mem_sweep_file hstuck, List.mem_cons]
              tauto
  | dir name sub rest ihsub ih =>
      have hself := hnew (name :: p) (List.mem_cons_self ..)
      have hrest : ∀ c ∈ rest.paths p, c ∉ d.gone := fun c hc =>
        hnew c (List.mem_cons_of_mem _ (List.mem_append_right _ hc))
      have hsub : ∀ c ∈ sub.paths (name :: p), c ∉ d.gone := fun c hc =>
        hnew c (List.mem_cons_of_mem _ (List.mem_append_left _ hc))
      rw [internalLoop]
      cases hopenat : v.faults.openat (name :: p) with
      | true =>
          rw [sweep_shut (by simp [Faults.shut, hopenat])]
          exact ih hes.rest false hopen hrest
      | false =>
          cases hfdopen : v.faults.fdopendir (name :: p) with
          | true =>
              rw [sweep_shut (by simp [Faults.shut, hfdopen])]
              have h := ih (d := (d.openDir (name :: p)).closeDir (name :: p)) hes.rest false
                (by rw [openDir_closeDir_opened]; exact hopen) hrest
              exact ⟨h.opened.trans (openDir_closeDir_opened d _), h.gone⟩
          | false =>
              have hshut : v.faults.shut (name :: p) = false := by
                simp [Faults.shut, hopenat, hfdopen]
              simp only [Bool.false_eq_true, if_false]
              have hread : Removes (Dir.swept v ⟨name :: p, sub⟩) (d.openDir (name :: p))
                  (if v.faults.dirfd (name :: p) = true then (false, d.openDir (name :: p))
                    else internalLoop v (name :: p) sub true (d.openDir (name :: p))).2 := by
                rw [Dir.swept]
                split
                · exact Removes.nil rfl rfl
                · exact ihsub hes.sub true (List.mem_cons_self ..) hsub
              generalize (if v.faults.dirfd (name :: p) = true then (false, d.openDir (name :: p))
                else internalLoop v (name :: p) sub true (d.openDir (name :: p))) = r at hread ⊢
              have hnot : name :: p ∉ Dir.swept v ⟨name :: p, sub⟩ := fun hmem =>
                Entries.self_not_mem_paths (Dir.swept_subset hmem)
              have hround := hread.round hopen ⟨hnot, hself⟩ fun c hc =>
                hsub c (hes.children_mem hc)
              have hlast := fun b => ih hes.rest b (by rw [hround.opened]; exact hopen)
                fun c hc hmem => ((hround.gone c).1 hmem).elim
                  (fun hmem => hes.disjoint c (mem_of_round hmem) c hc rfl) (hrest c hc)
              rw [sweep_dir hshut]
              cases ((r.2.closeDir (name :: p)).unlinkat v p name true).1 with
              | true => exact hround.trans (hlast r.1)
              | false => exact hround.trans (hlast false)

/-- What `ForceRemoveDirectoryInternal` removes. -/
theorem forceRemoveDirectoryInternal_sweeps {x : Dir} (hx : Placed v x.path x.entries) {d : Disk}
    (hopen : x.path ∈ d.opened) (hnew : ∀ c ∈ x.entries.paths x.path, c ∉ d.gone) :
    Removes (x.swept v) d (forceRemoveDirectoryInternal v x d).2 := by
  rw [Dir.swept, forceRemoveDirectoryInternal]
  split
  · exact Removes.nil rfl rfl
  · exact internalLoop_sweeps hx true hopen hnew

/-! ## What is reached -/

variable (v)

/-- The files that are removed below `p` and the directories that are opened there; the flag is set
for directories. -/
def reached (p : Path) : Entries → List (Path × Bool)
  | .nil => []
  | .dots rest => reached p rest
  | .file name rest =>
      if v.faults.stuck (name :: p) then [] else (name :: p, false) :: reached p rest
  | .dir name sub rest =>
      if v.faults.shut (name :: p) then reached p rest
      else
        (name :: p, true) ::
          ((if v.faults.dirfd (name :: p) then [] else reached (name :: p) sub) ++ reached p rest)

def Dir.reached (x : Dir) : List (Path × Bool) :=
  if v.faults.dirfd x.path then [] else Directory.reached v x.path x.entries

variable {v} {b : Bool}

theorem reached_stuck (h : v.faults.stuck (name :: p) = true) :
    reached v p (.file name rest) = [] := if_pos h

theorem reached_file (h : v.faults.stuck (name :: p) = false) :
    reached v p (.file name rest) = (name :: p, false) :: reached v p rest :=
  if_neg (Bool.eq_false_iff.1 h)

theorem mem_reached_file (h : v.faults.stuck (name :: p) = false) :
    (c, b) ∈ reached v p (.file name rest) ↔
      (c = name :: p ∧ b = false) ∨ (c, b) ∈ reached v p rest := by
  rw [reached_file h, List.mem_cons, Prod.mk.injEq]

theorem reached_shut (h : v.faults.shut (name :: p) = true) :
    reached v p (.dir name sub rest) = reached v p rest := if_pos h

theorem reached_dir (h : v.faults.shut (name :: p) = false) :
    reached v p (.dir name sub rest) =
      (name :: p, true) :: (Dir.reached v ⟨name :: p, sub⟩ ++ reached v p rest) :=
  if_neg (Bool.eq_false_iff.1 h)

theorem mem_reached_dir (h : v.faults.shut (name :: p) = false) :
    (c, b) ∈ reached v p (.dir name sub rest) ↔
      (c = name :: p ∧ b = true) ∨ (c, b) ∈ Dir.reached v ⟨name :: p, sub⟩ ∨
        (c, b) ∈ reached v p rest := by
  rw [reached_dir h, List.mem_cons, List.mem_append, Prod.mk.injEq]

/-- Nothing is reached twice, and only what is there. -/
theorem reached_sublist {es : Entries} :
    ((reached v p es).map Prod.fst).Sublist (es.paths p) := by
  induction es generalizing p with
  | nil => exact List.Sublist.refl _
  | dots rest ih => exact ih
  | file name rest ih =>
      cases h : v.faults.stuck (name :: p) with
      | true =>
          rw [reached_stuck h]
          exact List.nil_sublist _
      | false =>
          rw [reached_file h]
          exact ih.cons_cons _
  | dir name sub rest ihsub ih =>
      cases h : v.faults.shut (name :: p) with
      | true =>
          rw [reached_shut h]
          exact (ih.trans (List.sublist_append_right ..)).cons _
      | false =>
          rw [reached_dir h, List.map_cons, List.map_append]
          refine (List.Sublist.append ?_ ih).cons_cons _
          rw [Dir.reached]
          split
          · exact List.nil_sublist _
          · exact ihsub

theorem reached_subset {es : Entries} (h : (c, b) ∈ reached v p es) : c ∈ es.paths p :=
  reached_sublist.subset (List.mem_map_of_mem h)

theorem Dir.reached_subset {x : Dir} (h : (c, b) ∈ x.reached v) : c ∈ x.entries.paths x.path := by
  rw [Dir.reached] at h
  split at h
  · exact absurd h (by simp)
  · exact Directory.reached_subset h

/-- What else is removed has no influence on an entry of `es`. -/
theorem Placed.goes_eq {es : Entries} (hes : Placed v p es) {l l' : List Path}
    (hc : c ∈ es.paths p) (h : ∀ x ∈ es.paths p, x ∈ l ↔ x ∈ l') : v.goes c l = v.goes c l' :=
  goes_congr fun x hx => h x (hes.closed c hc x hx)

theorem Placed.mem_sweep_sub (h : Placed v p (.dir name sub rest))
    (hshut : v.faults.shut (name :: p) = false) (hc : c ∈ sub.paths (name :: p)) :
    c ∈ sweep v p (.dir name sub rest) ↔ c ∈ Dir.swept v ⟨name :: p, sub⟩ := by
  rw [mem_sweep_dir hshut]
  constructor
  · rintro (⟨rfl, -⟩ | hmem | hmem)
    · exact absurd hc Entries.self_not_mem_paths
    · exact hmem
    · exact absurd rfl (h.disjoint c (List.mem_cons_of_mem _ hc) c (sweep_subset hmem))
  · exact fun hmem => Or.inr (Or.inl hmem)

theorem Placed.mem_sweep_rest (h : Placed v p (.dir name sub rest))
    (hshut : v.faults.shut (name :: p) = false) (hc : c ∈ rest.paths p) :
    c ∈ sweep v p (.dir name sub rest) ↔ c ∈ sweep v p rest := by
  rw [mem_sweep_dir hshut]
  constructor
  · rintro (⟨rfl, -⟩ | hmem | hmem)
    · exact absurd rfl (h.disjoint _ (List.mem_cons_self ..) _ hc)
    · exact absurd rfl (h.disjoint c (List.mem_cons_of_mem _ (Dir.swept_subset hmem)) c hc)
    · exact hmem
  · exact fun hmem => Or.inr (Or.inr hmem)

/-- **What is removed**: the files that are reached, and the directories that are reached and then
empty. -/
theorem mem_sweep {es : Entries} (hes : Placed v p es) :
    c ∈ sweep v p es ↔
      (c, false) ∈ reached v p es ∨
        ((c, true) ∈ reached v p es ∧ v.goes c (sweep v p es) = true) := by
  induction es generalizing p with
  | nil => simp [sweep, reached]
  | dots rest ih => exact ih hes.dots
  | file name rest ih =>
      cases hstuck : v.faults.stuck (name :: p) with
      | true => simp [sweep_stuck hstuck, reached_stuck hstuck]
      | false =>
          have hgoes : (c, true) ∈ reached v p rest →
              v.goes c (sweep v p (.file name rest)) = v.goes c (sweep v p rest) := by
            intro hc
            refine hes.file.goes_eq (reached_subset hc) fun x hx => ?_
            rw [mem_sweep_file hstuck]
            refine or_iff_right fun hxq => ?_
            rw [hxq] at hx
            exact (List.nodup_cons.1 hes.nodup).1 hx
          have hright : (c, true) ∈ reached v p rest ∧ v.goes c (sweep v p rest) = true ↔
              (c, true) ∈ reached v p rest ∧
                v.goes c (sweep v p (.file name rest)) = true :=
            and_congr_right fun hc => by rw [hgoes hc]
          rw [mem_sweep_file hstuck, ih hes.file, hright, mem_reached_file hstuck,
            mem_reached_file hstuck]
          simp [or_assoc]
  | dir name sub rest ihsub ih =>
      cases hshut : v.faults.shut (name :: p) with
      | true =>
          rw [sweep_shut hshut, reached_shut hshut]
          exact ih hes.rest
      | false =>
          have hbelow : c ∈ Dir.swept v ⟨name :: p, sub⟩ ↔
              (c, false) ∈ Dir.reached v ⟨name :: p, sub⟩ ∨
                ((c, true) ∈ Dir.reached v ⟨name :: p, sub⟩ ∧
                  v.goes c (Dir.swept v ⟨name :: p, sub⟩) = true) := by
            rw [Dir.swept, Dir.reached]
            split
            · simp
            · exact ihsub hes.sub
          have hself : v.goes (name :: p) (sweep v p (.dir name sub rest)) =
              v.goes (name :: p) (Dir.swept v ⟨name :: p, sub⟩) :=
            goes_congr fun x hx => hes.mem_sweep_sub hshut (hes.children_mem hx)
          have hgoes : (c, true) ∈ Dir.reached v ⟨name :: p, sub⟩ →
              v.goes c (sweep v p (.dir name sub rest)) =
                v.goes c (Dir.swept v ⟨name :: p, sub⟩) := fun hc =>
            hes.sub.goes_eq (Dir.reached_subset hc) fun x hx => hes.mem_sweep_sub hshut hx
          have hgoes' : (c, true) ∈ reached v p rest →
              v.goes c (sweep v p (.dir name sub rest)) = v.goes c (sweep v p rest) := fun hc =>
            hes.rest.goes_eq (reached_subset hc) fun x hx => hes.mem_sweep_rest hshut hx
          rw [mem_sweep_dir hshut, hbelow, ih hes.rest, mem_reached_dir hshut,
            mem_reached_dir hshut]
          constructor
          · rintro (⟨rfl, h⟩ | (h | ⟨hc, h⟩) | h | ⟨hc, h⟩)
            · exact Or.inr ⟨Or.inl ⟨rfl, rfl⟩, by rw [hself]; exact h⟩
            · exact Or.inl (Or.inr (Or.inl h))
            · exact Or.inr ⟨Or.inr (Or.inl hc), by rw [hgoes hc]; exact h⟩
            · exact Or.inl (Or.inr (Or.inr h))
            · exact Or.inr ⟨Or.inr (Or.inr hc), by rw [hgoes' hc]; exact h⟩
          · rintro ((⟨-, h⟩ | h | h) | ⟨⟨rfl, -⟩ | hc | hc, h⟩)
            · exact absurd h (by simp)
            · exact Or.inr (Or.inl (Or.inl h))
            · exact Or.inr (Or.inr (Or.inl h))
            · exact Or.inl ⟨rfl, by rw [← hself]; exact h⟩
            · exact Or.inr (Or.inl (Or.inr ⟨hc, by rw [← hgoes hc]; exact h⟩))
            · exact Or.inr (Or.inr (Or.inr ⟨hc, by rw [← hgoes' hc]; exact h⟩))

end CUtils.Directory
