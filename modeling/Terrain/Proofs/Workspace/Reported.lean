import Terrain.Proofs.Graph.Issue
import Terrain.Proofs.Pass.Booked
import Terrain.Proofs.Workspace.Covered
import Terrain.Proofs.Workspace.TwoScans

/-! What the report of a pass says, be it a full pass or one from seeds: which nodes were calculated
and in what order, which of the others have failed and how, and which are left without a value. -/
namespace Terrain

open Pass Relation

/-- The nodes that a pass is about: all, or what is reached forward from those seeds that exist. -/
def Seeding.Reaches (g : Graph) (id : NodeId) : Seeding → Prop
  | all => id ∈ g.nodeIds
  | nodes seeds => ∃ s ∈ seeds, s ∈ g.nodeIds ∧ ReflTransGen g.Feeds s id

theorem Seeding.mem_pending {g : Graph} {id : NodeId} (s : Seeding) :
    id ∈ s.pending g ↔ s.Reaches g id := by
  cases s with
  | all => exact mem_work_all
  | nodes seeds =>
    refine Graph.mem_forward.trans (exists_congr fun s => ?_)
    rw [List.mem_filter, Graph.has_iff, and_assoc]

/-- The failure that a pass ends with where some of its nodes are left without a value. -/
def Report.leftOpen (stalled : List NodeId) : List GraphError :=
  if stalled = [] then [] else [.unsatisfiableDependency stalled]

theorem Pass.failures_closeStalled (p : Pass) (cx : PassSetting) :
    (p.closeStalled cx).failures = p.failures ++ Report.leftOpen (p.stalled cx) := by
  unfold closeStalled Report.leftOpen
  simp only [List.isEmpty_iff]
  split
  · exact (List.append_nil _).symm
  · rw [failures_emit]
    rfl

namespace Workspace
variable {w : Workspace} {tile : WorldTile} {interest : Interest} {part : List NodeId}
  {r : PassResult}

/-- What the report of a pass over some nodes says. -/
structure Reported (w : Workspace) (tile : WorldTile) (part : List NodeId) (r : PassResult) :
    Prop where
  once : r.report.calculated.Nodup
  ascending : r.report.stalled.Pairwise (·.index < ·.index)
  apart : ∀ id ∈ r.report.calculated, id ∉ r.report.stalled
  whole : ∀ id, id ∈ r.report.calculated ∨ id ∈ r.report.stalled ↔ id ∈ part
  /-- A node is calculated after those that feed it. -/
  ordered : ∀ u v, w.graph.Feeds u v → u ∈ r.report.calculated → v ∈ r.report.calculated →
    [u, v].Sublist r.report.calculated
  flagged : ∀ id ∈ part, (r.workspace.isCalculated id = true ↔ id ∈ r.report.calculated)
  blank : ∀ id ∈ r.report.stalled,
    (∀ port, r.workspace.value? ⟨id, port⟩ = none) ∧ r.workspace.result? id = none
  /-- The nodes that fail are those that are left without a value, but are not behind a cycle within
  the pass. The failure of each is reported once, and after all of them what the pass has left
  open, if there is anything. -/
  failures : ∃ faults, r.report.failures =
      Report.faultsOf faults ++ Report.leftOpen r.report.stalled ∧
    (faults.map Prod.fst).Nodup ∧
    (∀ id, id ∈ faults.map Prod.fst ↔ id ∈ r.report.stalled ∧ ¬ (w.graph.within part).Behind id) ∧
    ∀ f ∈ faults, w.graph.FailsWith tile r.workspace.compiled f.1 f.2
  complete : r.report.isComplete = true ↔ ∀ id ∈ part, id ∈ r.report.calculated

theorem failures_runPass (w : Workspace) (tile : WorldTile) (interest : Interest) (full : Bool)
    (pending work : List NodeId) : (w.runPass tile interest full pending work).report.failures =
      (w.settledPass tile interest full pending work).failures ++
        Report.leftOpen (w.runPass tile interest full pending work).report.stalled := by
  rw [stalled_runPass]
  exact failures_closeStalled _ _

/-- A pass begins with nothing in its books. -/
theorem startedPass_booked (hg : w.graph.WellFormed) (hknown : ∀ id ∈ part, id ∈ w.graph.nodeIds)
    (tile : WorldTile) (interest : Interest) (full : Bool) (work : List NodeId) :
    Booked ⟨w.graph, tile, interest⟩ (· ∈ part) w.compiled
      (w.startedPass tile interest full part work) := by
  have hentry := w.getElem?_compiled_startPass part work
  have hstart : Booked ⟨w.graph, tile, interest⟩ (· ∈ part) w.compiled (w.startPass part work) := by
    refine ⟨(startedPass_orderly hg hknown tile interest full work).congr ?_ ?_ ?_ ?_ ?_,
      fun id => ?_, List.nodup_nil, nofun, nofun, fun id hid => ?_, fun id hid => ?_,
      List.nodup_nil, ⟨[], rfl, rfl, nofun⟩, fun id hid hout => absurd hid hout⟩
    · exact (compiled_emit ..).symm
    · exact (waiting_emit ..).symm
    · exact (failed_emit ..).symm
    · exact (calculated_emit ..).symm
    · exact (failures_emit ..).symm
    · rw [isPending_iff, waiting_startPass, failed_startPass]
      exact ⟨fun h => .inl (.inl h), fun h =>
        (h.resolve_right List.not_mem_nil).resolve_right List.not_mem_nil⟩
    · rw [Compilation.isCalculated_eq, hentry, if_pos hid]
      exact iff_of_false Bool.false_ne_true List.not_mem_nil
    · exact (hentry id).trans (if_neg hid)
  exact hstart.congr (compiled_emit ..) (waiting_emit ..) (failed_emit ..) (calculated_emit ..)
    (failures_emit ..)

theorem settledPass_booked (hg : w.graph.WellFormed) (hknown : ∀ id ∈ part, id ∈ w.graph.nodeIds)
    (tile : WorldTile) (interest : Interest) (full : Bool) (work : List NodeId) :
    Booked ⟨w.graph, tile, interest⟩ (· ∈ part) w.compiled
      (w.settledPass tile interest full part work) :=
  (startedPass_booked hg hknown tile interest full work).moves (moves_settle _ _)

theorem value?_of_none {id : NodeId} (h : w.compiled[id]? = none) (port : PortId) :
    w.value? ⟨id, port⟩ = none := by
  simp [value?, Compilation.value?, h]

theorem result?_of_none {id : NodeId} (h : w.compiled[id]? = none) : w.result? id = none := by
  simp [result?, Compilation.result?, h]

/-- What is read off the books of a pass that nothing is ahead of. -/
theorem Reported.of_booked {before : Compilation} {p : Pass}
    (h : Booked ⟨w.graph, tile, interest⟩ (· ∈ part) before p)
    (hahead : Ahead ⟨w.graph, tile, interest⟩ p [])
    (hknown : ∀ id ∈ part, id ∈ w.graph.nodeIds)
    (hids : w.graph.nodeIds.Pairwise (·.index < ·.index)) (hgraph : r.workspace.graph = w.graph)
    (hcompiled : r.workspace.compiled = p.compiled)
    (hcalculated : r.report.calculated = p.calculated)
    (hstalled : r.report.stalled = p.stalled ⟨w.graph, tile, interest⟩)
    (hfailures : r.report.failures = p.failures ++ Report.leftOpen r.report.stalled) :
    w.Reported tile part r := by
  have hmem : ∀ id, id ∈ r.report.stalled ↔ p.isPending id = true := by
    intro id
    rw [hstalled, Pass.stalled, List.mem_filter]
    exact ⟨And.right, fun hp => ⟨h.known id hp, hp⟩⟩
  have hpart : ∀ id ∈ r.report.stalled, id ∈ part := fun id hid =>
    (h.split id).2 (.inl ((hmem id).1 hid))
  have hapart : ∀ id ∈ r.report.calculated, id ∉ r.report.stalled := by
    intro id hid
    rw [hmem, h.excluded id (hcalculated ▸ hid)]
    exact Bool.false_ne_true
  have hwhole : ∀ id, id ∈ r.report.calculated ∨ id ∈ r.report.stalled ↔ id ∈ part := by
    intro id
    rw [hmem, hcalculated, or_comm]
    exact (h.split id).symm
  have hwaiting : ∀ id, id ∈ p.waiting ↔ id ∈ part ∧ (w.graph.within part).Behind id := fun id =>
    Graph.mem_iff_behind_within
      (fun id hid => ⟨(h.split id).2 (.inl (isPending_iff.2 (.inl hid))),
        (hahead id hid).resolve_left List.not_mem_nil⟩) h.grounded
  obtain ⟨faults, hfaults, hnodes, hfails⟩ := h.faults
  have hfailed : ∀ id, id ∈ faults.map Prod.fst ↔
      id ∈ r.report.stalled ∧ ¬ (w.graph.within part).Behind id := by
    intro id
    rw [hnodes]
    constructor
    · intro hid
      have hs := (hmem id).2 (isPending_iff.2 (.inr hid))
      exact ⟨hs, fun hb => h.apart id hid ((hwaiting id).2 ⟨hpart id hs, hb⟩)⟩
    · rintro ⟨hs, hb⟩
      exact (isPending_iff.1 ((hmem id).1 hs)).resolve_left fun hw => hb ((hwaiting id).1 hw).2
  constructor
  case once => exact hcalculated ▸ h.once
  case ascending => exact hstalled ▸ hids.sublist List.filter_sublist
  case apart => exact hapart
  case whole => exact hwhole
  case ordered => rw [hcalculated]; exact h.ordered
  case flagged =>
    intro id hid
    rw [isCalculated, hgraph, hcompiled, hcalculated, Bool.and_eq_true, h.stored id hid,
      and_iff_right_iff_imp, Graph.has_iff]
    exact fun _ => hknown id hid
  case blank =>
    intro id hid
    have hnone : r.workspace.compiled[id]? = none := by
      have hstored := (h.stored id (hpart id hid)).not.2 fun hc => hapart id (hcalculated ▸ hc) hid
      rw [hcompiled]
      simpa [Compilation.isCalculated_eq] using hstored
    exact ⟨fun port => value?_of_none hnone port, result?_of_none hnone⟩
  case failures =>
    exact ⟨faults, hfaults ▸ hfailures, hnodes ▸ h.distinct, hfailed, hcompiled ▸ hfails⟩
  case complete =>
    rw [Report.isComplete, Bool.and_eq_true, List.isEmpty_iff, List.isEmpty_iff]
    constructor
    · rintro ⟨_, hnone⟩ id hid
      exact ((hwhole id).2 hid).resolve_right (by simp [hnone])
    · intro hall
      have hnone : r.report.stalled = [] := List.eq_nil_iff_forall_not_mem.2 fun id hid =>
        hapart id (hall id (hpart id hid)) hid
      have hfaultless : faults = [] := List.eq_nil_iff_forall_not_mem.2 fun f hf => by
        have hid := ((hfailed f.1).1 (List.mem_map_of_mem hf)).1
        simp [hnone] at hid
      rw [hfailures, hfaults, hfaultless, hnone]
      exact ⟨rfl, rfl⟩

end Workspace

open Workspace in
/-- The report of every pass over a graph that edits have led to, whatever it starts from and
whatever was compiled before it. -/
theorem Graph.Reached.runPass_reported {w : Workspace} (h : w.graph.Reached) (tile : WorldTile)
    (interest : Interest) (full : Bool) (s : Seeding) : w.Reported tile (s.pending w.graph)
      (w.runPass tile interest full (s.pending w.graph) (s.work w.graph)) := by
  have hg := h.wellFormed
  have hknown : ∀ id ∈ s.pending w.graph, id ∈ w.graph.nodeIds := fun _ hid => s.known hg hid
  have hahead := (startPass_ahead (w := w) ⟨w.graph, tile, interest⟩
    (fun _ hid => s.covered hid) (.passStarted full (s.work w.graph))).settle
      (startedPass_orderly hg hknown tile interest full (s.work w.graph)).toTidy
  exact .of_booked (settledPass_booked hg hknown tile interest full (s.work w.graph)) hahead
    hknown h.ascending rfl (compiled_runPass ..) (calculated_runPass ..) (stalled_runPass ..)
    (failures_runPass ..)

namespace Workspace

/-- Where the journal is empty, no pass is made, and there is nothing to report. -/
theorem reported_idle (w : Workspace) (tile : WorldTile) :
    w.Reported tile [] { workspace := w.drain.2 } where
  once := List.nodup_nil
  ascending := .nil
  apart := nofun
  whole := by simp
  ordered := nofun
  flagged := nofun
  blank := nofun
  failures := ⟨[], rfl, List.nodup_nil, by simp, nofun⟩
  complete := by simp [Report.isComplete]

end Workspace

/-- Over every graph that edits have led to, whatever was compiled before, and for every request:
the pass covers all nodes, or those that are reached forward from seeds that exist, and it reports
each of them once, as calculated after the nodes that feed it or as left without a value, with the
failure of each node that fails. -/
theorem Graph.Reached.serve_reported {w : Workspace} (h : w.graph.Reached) (tile : WorldTile)
    (interest : Interest) (request : Request) :
    (∀ id, id ∈ w.covered request ↔ (request.seeding w.graph).Reaches w.graph id) ∧
      w.Reported tile (w.covered request) (w.serve tile interest request) := by
  refine ⟨fun id => (request.seeding w.graph).mem_pending, ?_⟩
  have drained : ∀ {part : List NodeId} {r : PassResult}, w.drain.2.Reported tile part r →
      w.Reported tile part r := fun hr => ⟨hr.once, hr.ascending, hr.apart, hr.whole, hr.ordered,
    hr.flagged, hr.blank, hr.failures, hr.complete⟩
  cases request with
  | traverseAll => exact drained (Reached.runPass_reported h.drain tile interest true .all)
  | onChange node => exact h.runPass_reported tile interest false (.nodes [node])
  | recalculate seeds => exact h.runPass_reported tile interest false (.nodes seeds)
  | applyChanges =>
    change w.Reported tile (w.covered .applyChanges) (w.applyChanges tile interest)
    rw [Workspace.covered_applyChanges, Workspace.applyChanges_eq]
    by_cases hempty : w.graph.changes = []
    · rw [if_pos hempty, hempty, if_neg List.not_mem_nil]
      change w.Reported tile ((Seeding.nodes []).pending w.graph) _
      rw [Seeding.pending_nodes_nil]
      exact w.reported_idle tile
    by_cases hseed : .seedChanged ∈ w.graph.changes
    · rw [if_neg hempty, if_pos hseed, if_pos hseed]
      exact drained (Reached.runPass_reported h.drain tile interest true .all)
    · rw [if_neg hempty, if_neg hseed, if_neg hseed]
      exact drained (Reached.runPass_reported h.drain tile interest false (.nodes _))

/-- The pass over `knot` from two seeds, one of them named twice, and from a node that does not
exist. -/
theorem Workspace.knot_serve_reported : knot.graph.Reached ∧
    knot.covered (.recalculate [⟨3⟩, ⟨9⟩, ⟨1⟩, ⟨3⟩]) = [⟨3⟩, ⟨1⟩, ⟨2⟩] ∧
      ∀ tile interest, knot.Reported tile (knot.covered (.recalculate [⟨3⟩, ⟨9⟩, ⟨1⟩, ⟨3⟩]))
        (knot.serve tile interest (.recalculate [⟨3⟩, ⟨9⟩, ⟨1⟩, ⟨3⟩])) := by
  obtain ⟨_, h⟩ := history_knot
  exact ⟨h.reached, by decide +kernel, fun tile interest =>
    (h.reached.serve_reported tile interest _).2⟩

end Terrain
