import Terrain.Proofs.Pass.Progress

/-! The schedule of a pass. Whatever the order in which pending nodes are tried, the invariant of
the pass holds. -/
namespace Terrain
namespace Pass

open Relation

variable {cx : PassSetting} {p q : Pass} {id : NodeId}
  {within counts : NodeId → Prop} {before : NodeId → Option Meaning} {Γ : Ledger}

/-- A move of a pass: a pending node is tried, or the work-list is rearranged. -/
inductive Move (cx : PassSetting) (p : Pass) : Pass → Prop
  | attempt (id : NodeId) (pending : p.isPending id = true) : Move cx p (p.attempt cx id).2
  | plan (work : List NodeId) : Move cx p { p with work }

abbrev Moves (cx : PassSetting) : Pass → Pass → Prop := ReflTransGen (Move cx)

theorem move_enqueue (cx : PassSetting) (p : Pass) (id : NodeId) : Move cx p (p.enqueue id) := by
  unfold enqueue
  split
  · exact .plan p.work
  · exact .plan (p.work ++ [id])

theorem isPending_enqueue (hw : id ∈ p.waiting) : (p.enqueue id).isPending id = true :=
  isPending_iff.2 (.inl (by simpa using hw))

theorem moves_pushForward (cx : PassSetting) (p : Pass) (stack : List NodeId) :
    Moves cx p (pushForward cx p stack) := by
  have attempt : ∀ (p : Pass) (id : NodeId), p.waiting.contains id = true →
      Moves cx p ((p.enqueue id).attempt cx id).2 := by
    intro p id hw
    have hp := isPending_enqueue (List.contains_iff_mem.1 hw)
    exact .tail (.single (move_enqueue cx p id)) (.attempt id hp)
  fun_induction pushForward cx p stack with
  | case1 p => exact .refl
  | case2 p next rest hw step ha ih => exact (attempt p next hw).trans ih
  | case3 p next rest hw step ha ih => exact (attempt p next hw).trans ih
  | case4 p next rest hw ih => exact ih

theorem moves_scan (cx : PassSetting) (ids : List NodeId) (p : Pass) :
    Moves cx p (scan cx ids p).2 := by
  induction ids generalizing p with
  | nil => exact .refl
  | cons id rest ih =>
    unfold scan
    split
    · next hp =>
      dsimp only
      have hattempt : Moves cx p (p.attempt cx id).2 := .single (.attempt id hp)
      split
      · exact hattempt.trans ((moves_pushForward cx _ _).trans (ih _))
      · exact hattempt.trans (ih _)
    · exact ih p

theorem moves_settle (cx : PassSetting) (p : Pass) : Moves cx p (settle cx p) := by
  fun_induction settle cx p with
  | case1 p round next hdone => exact (moves_scan cx p.work p).tail (.plan _)
  | case2 p round next hmore ih => exact ((moves_scan cx p.work p).tail (.plan _)).trans ih

/-- The invariant of a pass over some of the nodes, together with a ledger that backs it. -/
structure Valid (cx : PassSetting) (within counts : NodeId → Prop)
    (before : NodeId → Option Meaning) (Γ : Ledger) (p : Pass) : Prop where
  known : ∀ id, within id → id ∈ cx.graph.nodeIds
  counted : ∀ id ∈ cx.graph.nodeIds, counts id
  progress : Progress cx within before p
  backed : ∃ Γ' : Ledger, Γ <+: Γ' ∧ Γ'.Backs counts p.compiled p.store

/-- An attempt at a pending node comes to one of the outcomes and keeps the invariant. -/
theorem Valid.attempt (h : Valid cx within counts before Γ p) (hp : p.isPending id = true) :
    ∃ n, cx.graph.node? id = some n ∧ Tried cx p n (p.attempt cx id).1 (p.attempt cx id).2 ∧
      Valid cx within counts before Γ (p.attempt cx id).2 := by
  obtain ⟨n, hn⟩ := Graph.mem_nodeIds.1 (h.known id (h.progress.pending id hp).1)
  obtain ⟨Γ', hΓ, hbacked⟩ := h.backed
  obtain ⟨ht, Γ₂, hΓ₂, hbacked₂⟩ := attempt_tried hbacked h.counted hn
  obtain rfl := Graph.id_of_node? hn
  exact ⟨n, hn, ht, h.known, h.counted, h.progress.tried hp hn ht, Γ₂, hΓ.trans hΓ₂, hbacked₂⟩

theorem Valid.plan (h : Valid cx within counts before Γ p) (work : List NodeId) :
    Valid cx within counts before Γ { p with work } :=
  ⟨h.known, h.counted, h.progress.congr rfl rfl rfl rfl, h.backed⟩

theorem Valid.emit (h : Valid cx within counts before Γ p) (e : Event) :
    Valid cx within counts before Γ (p.emit cx e) :=
  ⟨h.known, h.counted, h.progress.congr (by simp [shows]) (by simp) (by simp) (by simp),
    by simpa using h.backed⟩

theorem Valid.move (h : Valid cx within counts before Γ p) (hm : Move cx p q) :
    Valid cx within counts before Γ q := by
  cases hm with
  | attempt id pending =>
    obtain ⟨_, _, _, hq⟩ := h.attempt pending
    exact hq
  | plan work => exact h.plan work

theorem Valid.moves (h : Valid cx within counts before Γ p) (hm : Moves cx p q) :
    Valid cx within counts before Γ q := by
  induction hm with
  | refl => exact h
  | tail _ hm ih => exact ih.move hm

end Pass
end Terrain
