import CUtils.IOEvent.Reactor
import Mathlib.Algebra.BigOperators.Group.Finset.Basic
import Mathlib.Data.Finset.Card

/-!
# The handler lists of the reactor

`Lists r L` says that the links of `r` are those of the lists `L`, one for each descriptor: every
chain is in place, no handler is in two of them or twice in one, and a handler that is in none has
no links. Every operation keeps such lists, whatever epoll answers; what it does to them is said
here once, and the results about the count and about the masks are drawn from it.
-/

namespace CUtils.IOEvent

open LinkedList Reactor

variable {ι : Type}

structure Lists (r : Reactor ι) (L : Nat → List ι) : Prop where
  chain : ∀ fd, r.links.Chain (.head fd) ((L fd).map .handler)
  nodup : ∀ fd, (L fd).Nodup
  unique : ∀ {fd fd' i}, i ∈ L fd → i ∈ L fd' → fd = fd'
  free : ∀ {i}, (∀ fd, i ∉ L fd) →
    r.links.prev (.handler i) = none ∧ r.links.next (.handler i) = none
  beyond : ∀ fd ≥ r.size, L fd = []
  size_ge : initFdNums ≤ r.size

theorem Lists.new (handlers : ι → Handler) (answers : Nat → Bool) :
    Lists (Reactor.new handlers answers) fun _ => [] where
  chain _ := rfl
  nodup _ := List.nodup_nil
  unique h := absurd h (by simp)
  free _ := ⟨rfl, rfl⟩
  beyond _ _ := rfl
  size_ge := le_rfl

/-- What does not touch the links or the table leaves the lists alone. -/
theorem Lists.of_same {r r' : Reactor ι} {L : Nat → List ι} (h : Lists r L)
    (hlinks : r'.links = r.links) (hsize : r'.size = r.size) : Lists r' L where
  chain := by rw [hlinks]; exact h.chain
  nodup := h.nodup
  unique := h.unique
  free := by rw [hlinks]; exact h.free
  beyond := by rw [hsize]; exact h.beyond
  size_ge := by rw [hsize]; exact h.size_ge

theorem Lists.isSome_prev_iff {r : Reactor ι} {L : Nat → List ι} (h : Lists r L) {i : ι} :
    (r.links.prev (.handler i)).isSome = true ↔ ∃ fd, i ∈ L fd := by
  constructor
  · intro hprev
    by_contra hnone
    rw [(h.free (not_exists.1 hnone)).1] at hprev
    exact absurd hprev (by simp)
  · rintro ⟨fd, hi⟩
    exact (h.chain fd).prev_isSome (List.mem_map_of_mem hi)

theorem Lists.notMem_of_alone {r : Reactor ι} {L : Nat → List ι} (h : Lists r L) {i : ι}
    (hi : r.links.prev (.handler i) = none) (fd : Nat) : i ∉ L fd := by
  intro hmem
  have hsome := h.isSome_prev_iff.2 ⟨fd, hmem⟩
  rw [hi] at hsome
  exact absurd hsome (by simp)

theorem nodup_map_handler {l : List ι} (h : l.Nodup) : (l.map Node.handler).Nodup :=
  h.map fun _ _ h => Node.handler.inj h

theorem mem_map_handler {l : List ι} {i : ι} : Node.handler i ∈ l.map Node.handler ↔ i ∈ l := by
  simp

theorem head_notMem_map (fd : Nat) (l : List ι) : Node.head fd ∉ l.map Node.handler := by simp

theorem nodup_head_cons {fd : Nat} {l : List ι} (h : l.Nodup) :
    (Node.head fd :: l.map Node.handler).Nodup :=
  List.nodup_cons.2 ⟨head_notMem_map fd l, nodup_map_handler h⟩

theorem Lists.nodes_eq [Fintype ι] {r : Reactor ι} {L : Nat → List ι} (h : Lists r L) (fd : Nat) :
    r.nodes fd = (L fd).map .handler := by
  refine (h.chain fd).walk_eq ?_
  rw [List.length_map]
  exact (h.nodup fd).length_le_card

/-! ## What the operations do to the lists -/

variable [DecidableEq ι]

theorem Lists.insertNodeFront {r : Reactor ι} {L : Nat → List ι} (h : Lists r L) {i : ι}
    (hi : ∀ fd, i ∉ L fd) (fd : Nat) :
    Lists (r.insertNodeFront fd i) (Function.update L fd (i :: L fd)) := by
  have hmem : ∀ {fd' j}, j ∈ Function.update L fd (i :: L fd) fd' →
      j ∈ L fd' ∨ j = i ∧ fd' = fd := by
    intro fd' j hj
    by_cases hfd : fd' = fd
    · subst hfd
      rw [Function.update_self] at hj
      exact (List.mem_cons.1 hj).symm.imp_right fun hji => ⟨hji, rfl⟩
    · rw [Function.update_of_ne hfd] at hj
      exact Or.inl hj
  have hsize : r.size ≤ (r.insertNodeFront fd i).size ∧ fd < (r.insertNodeFront fd i).size := by
    have := h.size_ge
    simp only [initFdNums] at this
    show r.size ≤ (if fd > r.size - 1 then fd * 2 else r.size) ∧
      fd < if fd > r.size - 1 then fd * 2 else r.size
    split <;> omega
  refine ⟨fun fd' => ?_, fun fd' => ?_, fun {a b j} hja hjb => ?_, fun {j} hj => ?_,
    fun fd' hge => ?_, h.size_ge.trans hsize.1⟩
  · by_cases hfd : fd' = fd
    · subst hfd
      rw [Function.update_self, List.map_cons]
      exact (h.chain fd').insertFront (by simp) (by simpa using hi fd') (head_notMem_map _ _)
        (nodup_map_handler (h.nodup fd'))
    · rw [Function.update_of_ne hfd]
      refine (h.chain fd').congr (fun b hb => ?_) fun b hb => ?_
      · have hbi : b ≠ .handler i := by
          rintro rfl
          simp only [List.mem_cons, reduceCtorEq, mem_map_handler, false_or] at hb
          exact hi fd' hb
        have hbh : b ≠ .head fd := by
          rintro rfl
          simp [Ne.symm hfd] at hb
        show (r.links.insertFront (.head fd) (.handler i)).next b = _
        simp [Links.insertFront, hbi, hbh]
      · obtain ⟨j, hj, rfl⟩ := List.mem_map.1 hb
        have hji : j ≠ i := fun hji => hi fd' (hji ▸ hj)
        have hhead : r.links.next (.head fd) ≠ some (.handler j) := by
          rw [(h.chain fd).head_eq]
          intro heq
          have := List.mem_of_mem_head? heq
          exact hfd (h.unique hj (mem_map_handler.1 this))
        show (r.links.insertFront (.head fd) (.handler i)).prev (.handler j) = _
        simp [Links.insertFront, hji, hhead]
  · by_cases hfd : fd' = fd
    · subst hfd
      rw [Function.update_self]
      exact List.nodup_cons.2 ⟨hi fd', h.nodup fd'⟩
    · rw [Function.update_of_ne hfd]
      exact h.nodup fd'
  · rcases hmem hja with hja' | ⟨hji, hafd⟩
    · rcases hmem hjb with hjb' | ⟨hji, -⟩
      · exact h.unique hja' hjb'
      · exact absurd (hji ▸ hja') (hi a)
    · rcases hmem hjb with hjb' | ⟨-, hbfd⟩
      · exact absurd (hji ▸ hjb') (hi b)
      · exact hafd.trans hbfd.symm
  · have hji : j ≠ i := by
      rintro rfl
      exact hj fd (by simp)
    have hjL : ∀ fd', j ∉ L fd' := by
      intro fd' hmem'
      refine hj fd' ?_
      by_cases hfd : fd' = fd
      · subst hfd
        rw [Function.update_self]
        exact List.mem_cons_of_mem i hmem'
      · rwa [Function.update_of_ne hfd]
    obtain ⟨hprev, hnext⟩ := h.free hjL
    have hhead : r.links.next (.head fd) ≠ some (.handler j) := by
      rw [(h.chain fd).head_eq]
      intro heq
      exact hjL fd (mem_map_handler.1 (List.mem_of_mem_head? heq))
    constructor
    · show (r.links.insertFront (.head fd) (.handler i)).prev (.handler j) = _
      simp [Links.insertFront, hji, hhead, hprev]
    · show (r.links.insertFront (.head fd) (.handler i)).next (.handler j) = _
      simp [Links.insertFront, hji, hnext]
  · have hne : fd' ≠ fd := by
      rintro rfl
      exact absurd hge (Nat.not_le.2 hsize.2)
    rw [Function.update_of_ne hne]
    exact h.beyond fd' (hsize.1.trans hge)

theorem Lists.unlink {r : Reactor ι} {L : Nat → List ι} (h : Lists r L) {fd : Nat} {i : ι}
    (hi : i ∈ L fd) :
    Lists { r with links := r.links.unlink (.handler i) } (Function.update L fd ((L fd).erase i)) := by
  obtain ⟨xs, ys, hsplit⟩ := List.append_of_mem hi
  have hnodup := h.nodup fd
  rw [hsplit] at hnodup
  have hixs : i ∉ xs := by
    intro hmem
    exact (List.nodup_append.1 hnodup).2.2 i hmem i (by simp) rfl
  have herase : (L fd).erase i = xs ++ ys := by
    rw [hsplit, List.erase_append_right _ hixs, List.erase_cons_head]
  have hchain := h.chain fd
  rw [hsplit, List.map_append, List.map_cons] at hchain
  have hsub : ∀ {fd' j}, j ∈ Function.update L fd ((L fd).erase i) fd' → j ∈ L fd' := by
    intro fd' j hj
    by_cases hfd : fd' = fd
    · subst hfd
      rw [Function.update_self] at hj
      exact List.mem_of_mem_erase hj
    · rwa [Function.update_of_ne hfd] at hj
  refine ⟨fun fd' => ?_, fun fd' => ?_, fun hja hjb => h.unique (hsub hja) (hsub hjb),
    fun {j} hj => ?_, fun fd' hge => ?_, h.size_ge⟩
  · by_cases hfd : fd' = fd
    · subst hfd
      rw [Function.update_self, herase, List.map_append]
      refine hchain.unlink ?_
      rw [← List.map_cons, ← List.map_append]
      exact nodup_head_cons hnodup
    · rw [Function.update_of_ne hfd]
      refine (h.chain fd').unlink_of_disjoint hchain fun c hc hc' => ?_
      rw [← List.map_cons, ← List.map_append, ← hsplit] at hc'
      cases c with
      | head f =>
          simp only [List.mem_cons, Node.head.injEq, head_notMem_map, or_false] at hc hc'
          exact hfd (hc.symm.trans hc')
      | handler j =>
          simp only [List.mem_cons, reduceCtorEq, mem_map_handler, false_or] at hc hc'
          exact hfd (h.unique hc hc')
  · by_cases hfd : fd' = fd
    · subst hfd
      rw [Function.update_self]
      exact (h.nodup fd').erase i
    · rw [Function.update_of_ne hfd]
      exact h.nodup fd'
  · show (r.links.unlink (.handler i)).prev (.handler j) = none ∧
      (r.links.unlink (.handler i)).next (.handler j) = none
    rw [Links.unlink_prev, Links.unlink_next]
    by_cases hji : Node.handler j = Node.handler i
    · rw [if_pos hji, if_pos hji]
      exact ⟨rfl, rfl⟩
    · rw [if_neg hji, if_neg hji]
      have hji' : j ≠ i := fun h => hji (congrArg _ h)
      have hjL : ∀ fd', j ∉ L fd' := by
        intro fd' hmem'
        refine hj fd' ?_
        by_cases hfd : fd' = fd
        · subst hfd
          rw [Function.update_self]
          exact (List.mem_erase_of_ne hji').2 hmem'
        · rwa [Function.update_of_ne hfd]
      obtain ⟨hprev, hnext⟩ := h.free hjL
      obtain ⟨hip, -, hback⟩ := Links.chain_append hchain
      have hxs : (xs.map Node.handler).getLast?.getD (.head fd) ≠ .handler j := by
        intro heq
        have := Links.last_mem (Node.head fd) (xs.map Node.handler)
        rw [heq] at this
        simp only [List.mem_cons, reduceCtorEq, mem_map_handler, false_or] at this
        exact hjL fd (by rw [hsplit]; exact List.mem_append_left _ this)
      have hys : r.links.next (.handler i) ≠ some (.handler j) := by
        rw [hback.head_eq]
        intro heq
        have := mem_map_handler.1 (List.mem_of_mem_head? heq)
        exact hjL fd (by rw [hsplit]; exact List.mem_append_right _ (List.mem_cons_of_mem i this))
      rw [hip, if_neg hys, if_neg fun heq => hxs (Option.some.inj heq)]
      exact ⟨hprev, hnext⟩
  · by_cases hfd : fd' = fd
    · subst hfd
      have := h.beyond fd' hge
      rw [this] at hi
      exact absurd hi (by simp)
    · rw [Function.update_of_ne hfd]
      exact h.beyond fd' hge

/-- A handler without links is destroyed without touching any. -/
theorem unlink_free {l : Links (Node ι)} {i : ι} (hprev : l.prev (.handler i) = none)
    (hnext : l.next (.handler i) = none) : l.unlink (.handler i) = l := by
  have hn : (l.unlink (.handler i)).next = l.next := by
    funext b
    rw [Links.unlink_next, hprev, if_neg (by simp : ¬ (none = some b))]
    by_cases hb : b = .handler i
    · rw [if_pos hb, hb, hnext]
    · rw [if_neg hb]
  have hp : (l.unlink (.handler i)).prev = l.prev := by
    funext b
    rw [Links.unlink_prev, hnext, if_neg (by simp : ¬ (none = some b))]
    by_cases hb : b = .handler i
    · rw [if_pos hb, hb, hprev]
    · rw [if_neg hb]
  cases h : l.unlink (.handler i)
  cases l
  rw [h] at hn hp
  simp only at hn hp
  rw [hn, hp]

theorem Lists.dissolve [Fintype ι] {r r' : Reactor ι} {L : Nat → List ι} (h : Lists r L) (fd : Nat)
    (hlinks : r'.links = r.links.dissolve (Fintype.card ι) (r.links.next (.head fd)))
    (hsize : r'.size = r.size) : Lists r' (Function.update L fd []) := by
  have hlen : ((L fd).map (Node.handler (ι := ι))).length ≤ Fintype.card ι := by
    rw [List.length_map]
    exact (h.nodup fd).length_le_card
  obtain ⟨hnext, hprev, hframe, hframe'⟩ :=
    (h.chain fd).dissolve (nodup_head_cons (h.nodup fd)) hlen
  rw [← hlinks] at hnext hprev hframe hframe'
  have hsub : ∀ {fd' j}, j ∈ Function.update L fd [] fd' → j ∈ L fd' := by
    intro fd' j hj
    by_cases hfd : fd' = fd
    · subst hfd
      rw [Function.update_self] at hj
      exact absurd hj (by simp)
    · rwa [Function.update_of_ne hfd] at hj
  refine ⟨fun fd' => ?_, fun fd' => ?_, fun hja hjb => h.unique (hsub hja) (hsub hjb),
    fun {j} hj => ?_, fun fd' hge => ?_, hsize ▸ h.size_ge⟩
  · by_cases hfd : fd' = fd
    · subst hfd
      rw [Function.update_self]
      exact hnext _ (by simp)
    · rw [Function.update_of_ne hfd]
      refine (h.chain fd').congr (fun b hb => hframe b fun hb' => ?_) fun b hb =>
        hframe' b fun hb' => ?_
      · cases b with
        | head f =>
            simp only [List.mem_cons, Node.head.injEq, head_notMem_map, or_false] at hb hb'
            exact hfd (hb.symm.trans hb')
        | handler j =>
            simp only [List.mem_cons, reduceCtorEq, mem_map_handler, false_or] at hb hb'
            exact hfd (h.unique hb hb')
      · obtain ⟨j, hj, rfl⟩ := List.mem_map.1 hb
        exact hfd (h.unique hj (mem_map_handler.1 hb'))
  · by_cases hfd : fd' = fd
    · subst hfd
      rw [Function.update_self]
      exact List.nodup_nil
    · rw [Function.update_of_ne hfd]
      exact h.nodup fd'
  · by_cases hjfd : j ∈ L fd
    · exact ⟨hprev _ (mem_map_handler.2 hjfd), hnext _ (by simp [hjfd])⟩
    · have hjL : ∀ fd', j ∉ L fd' := by
        intro fd' hmem'
        by_cases hfd : fd' = fd
        · exact hjfd (hfd ▸ hmem')
        · exact hj fd' (by rwa [Function.update_of_ne hfd])
      rw [hframe' _ (by simp [hjfd]), hframe _ (by simp [hjfd])]
      exact h.free hjL
  · by_cases hfd : fd' = fd
    · subst hfd
      rw [Function.update_self]
    · rw [Function.update_of_ne hfd]
      exact h.beyond fd' (hsize ▸ hge)

end CUtils.IOEvent
