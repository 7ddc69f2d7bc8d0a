import Terrain.Proofs.Graph.Reached
import Terrain.Proofs.Pass.Result
import Terrain.Proofs.Pass.Scans
import Terrain.Proofs.Workspace.FullPass

/-! How a pass ends, whatever was compiled before it. It scans its work-list twice at the most, its
pushes take a bounded number of turns, and no node that has failed is calculated later on. -/
namespace Terrain

open Pass

namespace Workspace

/-- A pass over pending nodes as its first scan begins. -/
def startedPass (w : Workspace) (tile : WorldTile) (interest : Interest) (full : Bool)
    (pending work : List NodeId) : Pass :=
  (w.startPass pending work).emit ⟨w.graph, tile, interest⟩ (.passStarted full work)

/-- How a pass goes on to its end. -/
structure Ends (w : Workspace) (tile : WorldTile) (interest : Interest) (full : Bool)
    (pending work : List NodeId) : Prop where
  /-- There are two scans at the most, and nothing comes of a second one: no node settles, is
  calculated or is recorded as failed. -/
  scans : ∃ points, Scans ⟨w.graph, tile, interest⟩
      (w.startedPass tile interest full pending work) points
      (w.settledPass tile interest full pending work) ∧
    points.length ≤ 2 ∧ ∀ p ∈ points.tail,
      (scan ⟨w.graph, tile, interest⟩ p.work p).1 = false ∧
        Idle p (scan ⟨w.graph, tile, interest⟩ p.work p).2
  /-- A push takes a bounded number of turns. -/
  pushes : ∀ (p : Pass) (stack : List NodeId),
    ∃ turns ≤ stack.length + p.reach ⟨w.graph, tile, interest⟩,
      Pushes ⟨w.graph, tile, interest⟩ p stack turns
        (pushForward ⟨w.graph, tile, interest⟩ p stack)
  /-- In whatever order nodes are tried, one that has failed goes on to count as such, and is not
  calculated. -/
  doomed : ∀ p q : Pass,
    Moves ⟨w.graph, tile, interest⟩ (w.startedPass tile interest full pending work) p →
    Moves ⟨w.graph, tile, interest⟩ p q → ∀ id ∈ p.failed, id ∈ q.failed ∧ id ∉ q.calculated
  reported : ∀ id fault,
    .compileFailure id fault ∈ (w.runPass tile interest full pending work).report.failures →
      id ∉ (w.runPass tile interest full pending work).report.calculated

theorem startedPass_orderly {w : Workspace} {pending : List NodeId} (hg : w.graph.WellFormed)
    (hknown : ∀ id ∈ pending, id ∈ w.graph.nodeIds) (tile : WorldTile) (interest : Interest)
    (full : Bool) (work : List NodeId) :
    Orderly ⟨w.graph, tile, interest⟩ (w.startedPass tile interest full pending work) := by
  have hfailed : ∀ id, id ∉ (w.startPass pending work).failed := by simp
  have hstart : Orderly ⟨w.graph, tile, interest⟩ (w.startPass pending work) := by
    refine ⟨⟨fun id hid => hknown id ?_, fun id hid => absurd hid (hfailed id)⟩, hg.fits,
      fun id hid => absurd hid (hfailed id), fun n _ hid => absurd hid (hfailed n.id), nofun, nofun⟩
    simpa [isPending] using hid
  exact hstart.congr (compiled_emit ..) (waiting_emit ..) (failed_emit ..) (calculated_emit ..)
    (failures_emit ..)

end Workspace

theorem Pass.Orderly.not_calculated {cx : PassSetting} {p : Pass} {id : NodeId} (h : Orderly cx p)
    (hf : id ∈ p.failed) : id ∉ p.calculated := by
  intro hc
  have hnot := h.excluded id hc
  rw [isPending_iff.2 (.inr hf)] at hnot
  cases hnot

/-- Every pass over a graph that edits have led to ends within two scans, whatever it starts from
and whatever was compiled before it. -/
theorem Graph.Reached.pass_ends {w : Workspace} (h : w.graph.Reached) (tile : WorldTile)
    (interest : Interest) (full : Bool) (s : Seeding) :
    w.Ends tile interest full (s.pending w.graph) (s.work w.graph) := by
  have hstart := Workspace.startedPass_orderly h.wellFormed
    (fun _ hid => s.known h.wellFormed hid) tile interest full (s.work w.graph)
  have hahead := Workspace.startPass_ahead (w := w) ⟨w.graph, tile, interest⟩
    (fun _ hid => s.covered hid) (.passStarted full (s.work w.graph))
  have hend := (hstart.moves (moves_settle _ _)).1
  constructor
  case scans =>
    obtain ⟨points, hpoints⟩ := scans_settle ⟨w.graph, tile, interest⟩
      (w.startedPass tile interest full (s.pending w.graph) (s.work w.graph))
    exact ⟨points, hpoints, hstart.scans hahead hpoints⟩
  case pushes => exact fun p stack => pushes_pushForward _ p stack
  case doomed =>
    intro p q hp hq id hid
    obtain ⟨hp, _⟩ := hstart.moves hp
    obtain ⟨hq, hfailed⟩ := hp.moves hq
    exact ⟨hfailed id hid, hq.not_calculated (hfailed id hid)⟩
  case reported =>
    intro id fault he
    rw [Workspace.compileFailure_mem_runPass] at he
    rw [Workspace.calculated_runPass]
    exact hend.not_calculated (hend.recorded id fault he)

theorem History.reached {allowed : WorldTile → Prop} {w : Workspace} {held : AnySupplier → Prop}
    (h : History allowed w held) : w.graph.Reached := by
  induction h with
  | fresh name seed => exact .fresh name seed
  | edit _ e ih => exact ih.edit e
  | touch _ _ ih => exact ih
  | @pass w held _ tile _ interest request ih =>
    rcases (w.served tile interest request).graph with hgraph | hgraph
    · rw [hgraph]
      exact ih
    · rw [hgraph]
      exact ih.drain

theorem Workspace.knot_pass_ends : knot.graph.Reached ∧
    ∀ tile interest, knot.Ends tile interest true (Seeding.all.pending knot.graph)
      (Seeding.all.work knot.graph) := by
  obtain ⟨_, h⟩ := history_knot
  exact ⟨h.reached, fun tile interest => h.reached.pass_ends tile interest true .all⟩

end Terrain
