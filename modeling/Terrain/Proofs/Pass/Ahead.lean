import Terrain.Proofs.Pass.Schedule

/-! What is still ahead in a pass. Every node that waits is among those that are still to be tried,
or is fed by another that waits; so a scan of the work-list leaves none waiting that is not. -/
namespace Terrain
namespace Pass

open Relation

variable {cx : PassSetting} {p q : Pass} {id : NodeId} {n : Node} {ids stack : List NodeId}

/-- The pending nodes are nodes of the graph, and none of them waits that has failed. -/
structure Tidy (cx : PassSetting) (p : Pass) : Prop where
  known : ∀ id, p.isPending id = true → id ∈ cx.graph.nodeIds
  apart : ∀ id ∈ p.failed, id ∉ p.waiting

/-- No more is pending where the nodes that wait, and those that have failed, are fewer. -/
theorem Tidy.mono (h : Tidy cx p) (hwaiting : ∀ id ∈ q.waiting, id ∈ p.waiting)
    (hfailed : ∀ id ∈ q.failed, id ∈ p.failed) : Tidy cx q where
  known id hid :=
    h.known id (isPending_iff.2 ((isPending_iff.1 hid).imp (hwaiting id) (hfailed id)))
  apart id hid hw := h.apart id (hfailed id hid) (hwaiting id hw)

theorem Valid.tidy {within counts : NodeId → Prop} {before : NodeId → Option Meaning} {Γ : Ledger}
    (h : Valid cx within counts before Γ p) : Tidy cx p :=
  ⟨fun id hp => h.known id (h.progress.pending id hp).1, h.progress.apart⟩

theorem Tidy.enqueue (h : Tidy cx p) (id : NodeId) : Tidy cx (p.enqueue id) :=
  h.mono (fun _ hw => by simpa using hw) fun _ hf => by simpa using hf

theorem Tidy.node (h : Tidy cx p) (hp : p.isPending id = true) :
    ∃ n, n.id = id ∧ cx.graph.node? n.id = some n := by
  obtain ⟨n, hn⟩ := Graph.mem_nodeIds.1 (h.known id hp)
  obtain rfl := Graph.id_of_node? hn
  exact ⟨n, rfl, hn⟩

theorem Tidy.attempted (h : Tidy cx p) (hp : p.isPending n.id = true) {out : Outcome × Pass}
    (ht : Attempted cx p n out) : Tidy cx out.2 := by
  cases ht with
  | blocked eligible => exact h
  | calculated eligible compiles =>
    refine h.mono (fun id hw => ?_) fun id hf => ?_
    · exact (List.mem_filter.1 (waiting_succeed .. ▸ hw)).1
    · exact (List.mem_filter.1 (failed_succeed .. ▸ hf)).1
  | failed eligible fails first =>
    refine ⟨fun id hid => ?_, fun id hf => ?_⟩
    · simp only [isPending_iff, waiting_fail, waiting_absorb, failed_fail, failed_absorb, ne_eq,
        List.mem_filter, decide_eq_true_eq, List.mem_append, List.mem_singleton] at hid
      rcases hid with ⟨hw, _⟩ | hf | rfl
      · exact h.known id (isPending_iff.2 (.inl hw))
      · exact h.known id (isPending_iff.2 (.inr hf))
      · exact h.known n.id hp
    · simp only [waiting_fail, waiting_absorb, failed_fail, failed_absorb, ne_eq, List.mem_filter,
        decide_eq_true_eq, List.mem_append, List.mem_singleton, not_and, not_not] at hf ⊢
      exact fun hw => hf.resolve_left fun hf => h.apart id hf hw
  | retried eligible fails again => exact ⟨h.known, h.apart⟩

theorem Tidy.attempt (h : Tidy cx p) (hp : p.isPending id = true) :
    Tidy cx (p.attempt cx id).2 := by
  obtain ⟨n, rfl, hn⟩ := h.node hp
  exact h.attempted hp (attempt_attempted p hn)

theorem Tidy.move (h : Tidy cx p) (hm : Move cx p q) : Tidy cx q := by
  cases hm with
  | attempt id pending => exact h.attempt pending
  | plan work => exact ⟨h.known, h.apart⟩

theorem Tidy.moves (h : Tidy cx p) (hm : Moves cx p q) : Tidy cx q := by
  induction hm with
  | refl => exact h
  | tail _ hm ih => exact ih.move hm

/-- Every node that waits is among those that are still to be tried, or fed by one that waits. -/
def Ahead (cx : PassSetting) (p : Pass) (ids : List NodeId) : Prop :=
  ∀ id ∈ p.waiting, id ∈ ids ∨ ∃ u ∈ p.waiting, cx.graph.Feeds u id

namespace Ahead

theorem congr (ha : Ahead cx p ids) (hw : q.waiting = p.waiting) : Ahead cx q ids := by
  unfold Ahead
  rw [hw]
  exact ha

theorem mono (ha : Ahead cx p ids) {ids' : List NodeId} (hids : ∀ id ∈ ids, id ∈ ids') :
    Ahead cx p ids' :=
  fun id hid => (ha id hid).imp_left (hids id)

theorem skip (ha : Ahead cx p (id :: ids)) (hw : id ∉ p.waiting) : Ahead cx p ids := by
  intro id' hid'
  refine (ha id' hid').imp_left fun hm => (List.mem_cons.1 hm).resolve_left ?_
  rintro rfl
  exact hw hid'

/-- A node that goes on to wait, since another that feeds it waits, need not be tried. -/
theorem blocked (ha : Ahead cx p (id :: ids)) (hfed : ∃ u ∈ p.waiting, cx.graph.Feeds u id) :
    Ahead cx p ids := by
  intro id' hid'
  rcases ha id' hid' with hm | hfed'
  · rcases List.mem_cons.1 hm with rfl | hm
    · exact .inr hfed
    · exact .inl hm
  · exact .inr hfed'

/-- Where a node no longer waits, those that read from it are to be tried. -/
theorem advance (ha : Ahead cx p (id :: ids)) (hw : q.waiting = p.waiting.filter (· ≠ id)) :
    Ahead cx q (cx.graph.readers id ++ ids) := by
  intro id' hid'
  simp only [hw, ne_eq, List.mem_filter, decide_eq_true_eq] at hid' ⊢
  rcases ha id' hid'.1 with hm | ⟨u, hu, hfeeds⟩
  · exact .inl (List.mem_append_right _ ((List.mem_cons.1 hm).resolve_left hid'.2))
  · by_cases heq : u = id
    · subst heq
      exact .inl (List.mem_append_left _ (Graph.mem_readers.2 hfeeds))
    · exact .inr ⟨u, ⟨hu, heq⟩, hfeeds⟩

/-- A pending node is tried, and where that settles it, those that read from it come first. -/
theorem attempt (ha : Ahead cx p (id :: ids)) (h : Tidy cx p) (hp : p.isPending id = true) :
    Ahead cx (p.attempt cx id).2
      (if (p.attempt cx id).1.advances then cx.graph.readers id ++ ids else ids) := by
  obtain ⟨n, rfl, hn⟩ := h.node hp
  have ht := attempt_attempted p hn
  generalize p.attempt cx n.id = out at ht
  cases ht with
  | blocked eligible => exact ha.blocked (not_isEligible_iff.1 eligible)
  | calculated eligible compiles => exact ha.advance (waiting_succeed ..)
  | failed eligible fails first => exact ha.advance (waiting_fail ..)
  | retried eligible fails again => exact (ha.skip (h.apart _ again)).congr rfl

/-- A push leaves nothing of its stack to be tried. -/
theorem pushForward (ha : Ahead cx p (stack ++ ids)) (h : Tidy cx p) :
    Ahead cx (pushForward cx p stack) ids := by
  fun_induction Pass.pushForward cx p stack with
  | case1 p => exact ha
  | case2 p next rest hw step hadvances ih =>
    have hp := isPending_enqueue (List.contains_iff_mem.1 hw)
    rw [List.cons_append] at ha
    have hstep := (ha.congr (waiting_enqueue p next)).attempt (h.enqueue next) hp
    rw [if_pos hadvances, ← List.append_assoc] at hstep
    exact ih hstep ((h.enqueue next).attempt hp)
  | case3 p next rest hw step hadvances ih =>
    have hp := isPending_enqueue (List.contains_iff_mem.1 hw)
    rw [List.cons_append] at ha
    have hstep := (ha.congr (waiting_enqueue p next)).attempt (h.enqueue next) hp
    rw [if_neg hadvances] at hstep
    exact ih hstep ((h.enqueue next).attempt hp)
  | case4 p next rest hw ih => exact ih (ha.skip fun hm => hw (List.contains_iff_mem.2 hm)) h

/-- A scan leaves no node waiting that is not fed by one that waits. -/
theorem scan (ha : Ahead cx p ids) (h : Tidy cx p) : Ahead cx (scan cx ids p).2 [] := by
  induction ids generalizing p with
  | nil => exact ha
  | cons id rest ih =>
    unfold Pass.scan
    split
    · next hp =>
      have hstep := ha.attempt h hp
      dsimp only
      split
      · next hadvances =>
        rw [if_pos hadvances] at hstep
        exact ih (hstep.pushForward (h.attempt hp))
          ((h.attempt hp).moves (moves_pushForward cx _ _))
      · next hadvances =>
        rw [if_neg hadvances] at hstep
        exact ih hstep (h.attempt hp)
    · next hp => exact ih (ha.skip fun hw => hp (isPending_iff.2 (.inl hw))) h

/-- Where the nodes that wait are on the work-list or fed by others that wait, a pass leaves none
waiting that is not fed by one that waits. -/
theorem settle (ha : Ahead cx p p.work) (h : Tidy cx p) : Ahead cx (settle cx p) [] := by
  fun_induction Pass.settle cx p with
  | case1 p round next hdone => exact (ha.scan h).congr rfl
  | case2 p round next hmore ih =>
    have hnext : Ahead cx next [] := (ha.scan h).congr rfl
    refine ih (hnext.mono (List.forall_mem_nil _)) ?_
    exact (h.moves (moves_scan cx p.work p)).move (.plan _)

end Ahead

end Pass
end Terrain
