import Terrain.Proofs.Graph.Journal
import Terrain.Proofs.Pass.Lockstep
import Terrain.Proofs.Workspace.Observed
import Terrain.Proofs.Workspace.Versions

/-! A workspace, and what comes back where it is saved and loaded: the document alone, with nothing
compiled. Edits read nothing else, and a full pass makes all else anew, so from then on the two are
alike whatever is done with them. -/
namespace Terrain

open Pass

namespace Graph
variable {g g' : Graph}

theorem withPast_document (g : Graph) : g.document.withPast g.changes = g := by
  simp [document, withPast]

/-- What an edit makes of a graph but for the journal. -/
def answer (g : Graph) (e : Edit) : Except GraphError (Reply × Graph) :=
  (g.perform e).map fun r => (r.1, r.2.document)

theorem answer_document (g : Graph) (e : Edit) : g.answer e = g.document.answer e := by
  have hperform := g.document.perform_withPast g.changes e
  rw [withPast_document] at hperform
  rw [answer, hperform, answer]
  cases g.document.perform e <;> rfl

theorem answer_congr (h : g'.document = g.document) (e : Edit) : g'.answer e = g.answer e := by
  rw [answer_document, h, ← answer_document]

theorem document_after (g : Graph) (e : Edit) : (g.after e).document =
    match g.answer e with
    | .ok r => r.2
    | .error _ => g.document := by
  rw [after, answer]
  cases g.perform e <;> rfl

end Graph

/-- What goes on with a workspace: an edit, which may be refused, or a full pass. -/
inductive Action
  | edit (e : Edit)
  | traverseAll (tile : WorldTile) (interest : Interest)

namespace Workspace
variable {w w' v v' : Workspace}

/-- A workspace after an action. -/
def after (w : Workspace) : Action → Workspace
  | .edit e => w.edited e
  | .traverseAll tile interest => (w.traverseAll tile interest).workspace

/-- The values that nodes have compiled to are backed by some ledger. -/
def IsBacked (w : Workspace) : Prop := ∃ Γ : Ledger, Γ.Backs (fun _ => True) w.compiled w.store

/-- Two workspaces of one document, each with values of its own. -/
structure Twins (w w' : Workspace) : Prop where
  document : w'.graph.document = w.graph.document
  backed : w.IsBacked
  backed' : w'.IsBacked

theorem Twins.edited (h : Twins w w') (e : Edit) : Twins (w.edited e) (w'.edited e) where
  document := by
    change (w'.graph.after e).document = (w.graph.after e).document
    rw [Graph.document_after, Graph.document_after, Graph.answer_congr h.document, h.document]
  backed := h.backed
  backed' := h.backed'

theorem IsBacked.startPass (h : w.IsBacked) (pending work : List NodeId) :
    (w.startPass pending work).Backed := by
  obtain ⟨Γ, hΓ⟩ := h
  refine ⟨Γ, hΓ.holds, fun id hid k hk => ?_⟩
  rw [getElem?_compiled_startPass] at hk
  split at hk
  · cases hk
  · exact hΓ.steady id hid k hk

/-- Where a pass is to compile every node, it starts in step with that over another workspace. -/
theorem startPass_lockstep {cx : PassSetting} (hv : v.IsBacked) (hv' : v'.IsBacked)
    {pending : List NodeId} (hall : ∀ id ∈ cx.graph.nodeIds, id ∈ pending) (work : List NodeId) :
    Lockstep cx (v.startPass pending work) (v'.startPass pending work) where
  shows id hid := by
    rw [Pass.shows, Pass.shows, Compilation.shows, Compilation.shows, getElem?_compiled_startPass,
      getElem?_compiled_startPass, if_pos (hall id hid), if_pos (hall id hid)]
  waiting := rfl
  failed := rfl
  work := rfl
  calculated := rfl
  failures := rfl
  events := rfl
  backed := hv.startPass pending work
  backed' := hv'.startPass pending work

/-- What a full pass reports, tells and leaves in one workspace, against the same in another. -/
structure PassesAlike (r r' : PassResult) : Prop where
  report : r'.report = r.report
  events : r'.events = r.events
  agrees : ∀ id, r.workspace.AgreesAt r'.workspace id

theorem runPass_alike (hgraph : v'.graph = v.graph) (hv : v.IsBacked) (hv' : v'.IsBacked)
    {pending : List NodeId} (hall : ∀ id ∈ v.graph.nodeIds, id ∈ pending) (tile : WorldTile)
    (interest : Interest) (full : Bool) (work : List NodeId) :
    PassesAlike (v.runPass tile interest full pending work)
        (v'.runPass tile interest full pending work) ∧
      (v.runPass tile interest full pending work).workspace.IsBacked ∧
        (v'.runPass tile interest full pending work).workspace.IsBacked := by
  have hstart : Lockstep ⟨v.graph, tile, interest⟩ (v.startPass pending work)
    (v'.startPass pending work) := startPass_lockstep hv hv' hall work
  obtain ⟨hreport, hend⟩ := hstart.run full
  unfold runPass
  rw [hgraph]
  refine ⟨⟨hreport, hend.events, fun id => ?_⟩, hend.backed, hend.backed'⟩
  obtain ⟨Γ, hΓ⟩ := hend.backed
  obtain ⟨Γ', hΓ'⟩ := hend.backed'
  exact agreesAt_of_shows rfl hΓ trivial hΓ' trivial fun hhas =>
    hend.shows id (Graph.has_iff.1 hhas)

theorem Twins.traverseAll (h : Twins w w') (tile : WorldTile) (interest : Interest) :
    PassesAlike (w.traverseAll tile interest) (w'.traverseAll tile interest) ∧
      Twins (w.traverseAll tile interest).workspace (w'.traverseAll tile interest).workspace := by
  -- A full pass drains the journal first, and that is all in which the graphs differ.
  have hgraph : w'.drain.2.graph = w.drain.2.graph := h.document
  rw [traverseAll_eq, traverseAll_eq, hgraph]
  obtain ⟨halike, hb, hb'⟩ := runPass_alike hgraph h.backed h.backed'
    (fun _ hid => Seeding.mem_work_all.2 hid) tile interest true (Seeding.all.work w.drain.2.graph)
  exact ⟨halike, congrArg Graph.document hgraph, hb, hb'⟩

theorem Twins.after (h : Twins w w') (action : Action) :
    Twins (w.after action) (w'.after action) := by
  cases action with
  | edit e => exact h.edited e
  | traverseAll tile interest => exact (h.traverseAll tile interest).2

theorem Twins.afterAll (h : Twins w w') (actions : List Action) :
    Twins (actions.foldl Workspace.after w) (actions.foldl Workspace.after w') := by
  induction actions generalizing w w' with
  | nil => exact h
  | cons action rest ih => exact ih (h.after action)

/-- No edit and no full pass tells two workspaces apart: an edit is answered or refused alike, and a
full pass reports and tells the same and leaves nodes that look the same. -/
structure Indistinct (w w' : Workspace) : Prop where
  document : w'.graph.document = w.graph.document
  revision : w'.graph.revision = w.graph.revision
  edit : ∀ e, (w'.edit e).map Prod.fst = (w.edit e).map Prod.fst
  traverseAll : ∀ tile interest,
    PassesAlike (w.traverseAll tile interest) (w'.traverseAll tile interest)

theorem fst_edit (w : Workspace) (e : Edit) :
    (w.edit e).map Prod.fst = (w.graph.answer e).map Prod.fst := by
  rw [edit, Graph.answer]
  cases w.graph.perform e <;> rfl

theorem Twins.indistinct (h : Twins w w') : Indistinct w w' where
  document := h.document
  revision := by
    have hrevision := congrArg Graph.revision h.document
    exact hrevision
  edit e := by rw [fst_edit, fst_edit, Graph.answer_congr h.document]
  traverseAll tile interest := (h.traverseAll tile interest).1

end Workspace

/-- Whatever has led to a workspace, and whatever edits and full passes follow: the workspace goes
on like the one that comes back where it is saved and loaded, be it into the same store or into one
that is empty. -/
theorem Stock.Reached.reload_transparent {w : Workspace} {held : AnySupplier → Prop}
    (h : Stock.Reached ⟨w, held⟩) (actions : List Action) :
    Workspace.Indistinct (actions.foldl Workspace.after w)
        (actions.foldl Workspace.after w.reload) ∧
      Workspace.Indistinct (actions.foldl Workspace.after w)
        (actions.foldl Workspace.after { w.reload with store := {} }) := by
  obtain ⟨Γ, hΓ⟩ := h.backed
  have htwins : ∀ (Γ' : Ledger) (store : Store), Γ'.Holds store →
      Workspace.Twins w { w.reload with store } := by
    intro Γ' store hst
    refine ⟨rfl, ⟨Γ, hΓ.backs⟩, Γ', hst, fun id _ k hk => ?_⟩
    simp [Workspace.reload] at hk
  exact ⟨((htwins Γ w.store hΓ.backs.holds).afterAll actions).indistinct,
    ((htwins [] {} Ledger.holds_empty).afterAll actions).indistinct⟩

namespace Workspace

/-- A sum that was calculated is saved and loaded, loses its input, is calculated, and has an edit
refused. -/
theorem editedSum_reload_transparent :
    let actions : List Action :=
      [.edit (.disconnect ⟨⟨1⟩, ⟨1⟩⟩), .traverseAll {} .all, .edit (.removeNode ⟨7⟩)]
    ∃ held, Stock.Reached ⟨editedSum, held⟩ ∧
      Indistinct (actions.foldl after editedSum) (actions.foldl after editedSum.reload) ∧
        Indistinct (actions.foldl after editedSum)
          (actions.foldl after { editedSum.reload with store := {} }) := by
  obtain ⟨held, h⟩ := history_editedSum
  exact ⟨held, h.stock, h.stock.reload_transparent _⟩

end Workspace
end Terrain
