import Terrain.Proofs.Workspace.FullPass

/-! What the pass for a request covers: every node, or what is reached forward from the nodes that
the request or the journal names. Whatever a drained journal concerns is covered. -/
namespace Terrain

theorem Seeding.closed {g : Graph} (s : Seeding) (hg : g.WellFormed) :
    g.ClosedForward (· ∈ s.pending g) := by
  intro u v huv hu
  cases s with
  | all => exact mem_work_all.2 (hg.mem_of_feeds huv).2
  | nodes seeds => exact Workspace.closed_forward _ _ u v huv hu

theorem Seeding.pending_nodes_nil (g : Graph) : (nodes []).pending g = [] := by
  refine List.eq_nil_iff_forall_not_mem.2 fun id hid => ?_
  obtain ⟨u, hu, _⟩ := Graph.mem_forward.1 hid
  cases hu

/-- What a request starts a pass from: the nodes that it names, or what the journal names. -/
def Request.seeding (g : Graph) : Request → Seeding
  | traverseAll => .all
  | applyChanges =>
    if .seedChanged ∈ g.changes then .all else .nodes (Change.affectedBy g.changes).eraseDups
  | onChange node => .nodes [node]
  | recalculate seeds => .nodes seeds

namespace Workspace

variable {w : Workspace} {tile : WorldTile} {interest : Interest} {Γ : Ledger}
  {held : AnySupplier → Prop} {id : NodeId}

/-- The nodes that the pass for a request covers. -/
def covered (w : Workspace) (request : Request) : List NodeId :=
  (request.seeding w.graph).pending w.graph

/-- A full pass overtakes nothing. -/
theorem not_overtakes_traverseAll (hg : w.graph.WellFormed) (id : NodeId) :
    ¬ w.graph.Overtakes (w.covered .traverseAll) id :=
  Graph.not_overtakes_all hg fun _ hu => Seeding.mem_work_all.2 hu

theorem covered_applyChanges (w : Workspace) : w.covered .applyChanges =
    (if .seedChanged ∈ w.graph.changes then Seeding.all
      else .nodes (Change.affectedBy w.graph.changes).eraseDups).pending w.graph := rfl

theorem applyChanges_eq (w : Workspace) (tile : WorldTile) (interest : Interest) :
    w.applyChanges tile interest =
      if w.graph.changes = [] then { workspace := w.drain.2 }
      else if .seedChanged ∈ w.graph.changes then w.traverseAll tile interest
      else w.drain.2.recalculate tile interest (Change.affectedBy w.graph.changes).eraseDups := by
  have hany : w.graph.changes.any (· = .seedChanged) = true ↔ .seedChanged ∈ w.graph.changes := by
    simp
  simp only [← hany, ← List.isEmpty_iff]
  rfl

/-- A workspace as the pass for a request finds it: its journal is kept, or it is drained, and then
the pass covers every node that the journal concerns. -/
inductive Opens (w : Workspace) (request : Request) : Workspace → Prop
  | kept : Opens w request w
  | drained (all : ∀ id ∈ w.graph.nodeIds, w.graph.Concerns w.graph.changes id →
      id ∈ w.covered request) : Opens w request w.drain.2

theorem ran_idle (w : Workspace) (tile : WorldTile) : w.Ran tile [] [] { workspace := w } where
  graph := rfl
  outside _ _ := rfl
  stuck := nofun
  settled := nofun
  grounded := nofun
  stalled := by simp
  failures := nofun
  failed := nofun
  unsatisfiable := by simp

/-- What the journal concerns is covered by a pass over what it affects. -/
theorem mem_forward_of_concerns {g : Graph} (hg : g.WellFormed) (hid : id ∈ g.nodeIds)
    (hseed : .seedChanged ∉ g.changes) (hc : g.Concerns g.changes id) :
    id ∈ (Seeding.nodes (Change.affectedBy g.changes).eraseDups).pending g := by
  obtain ⟨u, hu, huid⟩ := hc.resolve_left hseed
  have hhas : g.has u = true := Graph.has_iff.2 (hg.mem_of_reaches hid huid)
  exact Graph.mem_forward.2 ⟨u, List.mem_filter.2 ⟨List.mem_eraseDups.2 hu, hhas⟩, huid⟩

theorem traverseAll_covers (tile : WorldTile) (interest : Interest) (hΓ : w.BackedBy Γ held) :
    ∃ waiting, w.drain.2.Ran tile (Seeding.all.pending w.graph) waiting
      (w.traverseAll tile interest) := by
  obtain ⟨waiting, hran, _⟩ := traverseAll_ran_all tile interest hΓ.backs.holds
    (fun id _ _ => hΓ.backs.steady id trivial) fun _ _ => trivial
  exact ⟨waiting, hran⟩

section Serve
variable (tile : WorldTile) (interest : Interest) (hg : w.graph.WellFormed)
  (hΓ : w.BackedBy Γ held)
include hg hΓ

theorem recalculate_covers (seeds : List NodeId) : ∃ waiting,
    w.Ran tile ((Seeding.nodes seeds).pending w.graph) waiting
      (w.recalculate tile interest seeds) := by
  obtain ⟨waiting, hran, _⟩ := recalculate_ran tile interest hg hΓ.backs (fun _ _ => trivial) seeds
  exact ⟨waiting, hran⟩

theorem applyChanges_covers : ∃ waiting,
    w.drain.2.Ran tile (w.covered .applyChanges) waiting (w.applyChanges tile interest) := by
  rw [covered_applyChanges, applyChanges_eq]
  by_cases hempty : w.graph.changes = []
  · refine ⟨[], ?_⟩
    rw [if_pos hempty, hempty, if_neg List.not_mem_nil]
    change w.drain.2.Ran tile ((Seeding.nodes []).pending w.graph) [] _
    rw [Seeding.pending_nodes_nil]
    exact w.drain.2.ran_idle tile
  by_cases hseed : .seedChanged ∈ w.graph.changes
  · rw [if_neg hempty, if_pos hseed, if_pos hseed]
    exact traverseAll_covers tile interest hΓ
  · rw [if_neg hempty, if_neg hseed, if_neg hseed]
    exact recalculate_covers (w := w.drain.2) tile interest hg.drain ⟨hΓ.backs, hΓ.steady⟩ _

/-- Every request is served by a pass over what it covers. -/
theorem serve_ran (request : Request) : ∃ v waiting, w.Opens request v ∧
    v.Ran tile (w.covered request) waiting (w.serve tile interest request) := by
  cases request with
  | traverseAll =>
    obtain ⟨waiting, hran⟩ := traverseAll_covers tile interest hΓ
    exact ⟨_, waiting, .drained fun id hid _ => Seeding.mem_work_all.2 hid, hran⟩
  | onChange node =>
    obtain ⟨waiting, hran⟩ := recalculate_covers tile interest hg hΓ [node]
    exact ⟨_, waiting, .kept, hran⟩
  | recalculate seeds =>
    obtain ⟨waiting, hran⟩ := recalculate_covers tile interest hg hΓ seeds
    exact ⟨_, waiting, .kept, hran⟩
  | applyChanges =>
    obtain ⟨waiting, hran⟩ := applyChanges_covers tile interest hg hΓ
    refine ⟨_, waiting, .drained fun id hid hc => ?_, hran⟩
    rw [covered_applyChanges]
    split
    · exact Seeding.mem_work_all.2 hid
    · next hseed => exact mem_forward_of_concerns hg hid hseed hc

end Serve
end Workspace

end Terrain
