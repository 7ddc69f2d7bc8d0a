import Terrain.Graph.Edit
import Terrain.Pass.Run

/-! Workspaces: a graph, what its nodes compile to, and the store of the compiled suppliers.
Edits touch the graph alone; passes touch what its nodes compile to, and the journal that they
work off. -/
namespace Terrain

structure Workspace where
  graph : Graph
  compiled : Compilation := {}
  store : Store := {}

/-- What a pass leaves behind. -/
structure PassResult where
  workspace : Workspace
  report : Report := {}
  events : List Event := []
  notices : List Notice := []

namespace Workspace

def edit (w : Workspace) (e : Edit) : Except GraphError (Reply × Workspace) :=
  (w.graph.perform e).map fun (reply, graph) => (reply, { w with graph })

def drain (w : Workspace) : List Change × Workspace :=
  let (changes, graph) := w.graph.drain
  (changes, { w with graph })

def value? (w : Workspace) (p : PortRef) : Option PortValue := w.compiled.value? w.graph p

/-- Whether a node of the graph is calculated. -/
def isCalculated (w : Workspace) (id : NodeId) : Bool :=
  w.graph.has id && w.compiled.isCalculated id

/-- The value that an output node of the graph offers. -/
def result? (w : Workspace) (id : NodeId) : Option PortValue :=
  if w.graph.has id then w.compiled.result? id else none

/-- A pass over some nodes, which forgets what they had compiled to. -/
def startPass (w : Workspace) (pending work : List NodeId) : Pass where
  compiled := pending.foldl (·.erase ·) w.compiled
  store := w.store
  waiting := pending
  work := work

def runPass (w : Workspace) (tile : WorldTile) (interest : Interest) (full : Bool)
    (pending work : List NodeId) : PassResult :=
  let cx : PassSetting := ⟨w.graph, tile, interest⟩
  let (report, p) := (w.startPass pending work).run cx full
  { workspace := { w with compiled := p.compiled, store := p.store }
    report
    events := p.events
    notices := p.notices }

/-- Compiles every node, roots first, and drops the journal, which the pass covers. -/
def traverseAll (w : Workspace) (tile : WorldTile) (interest : Interest) : PassResult :=
  let w := w.drain.2
  let roots := w.graph.roots
  let work := roots ++ w.graph.nodeIds.filter (!roots.contains ·)
  w.runPass tile interest true work work

/-- Compiles the seeds that exist and all that is reached forward from them. -/
def recalculate (w : Workspace) (tile : WorldTile) (interest : Interest) (seeds : List NodeId) :
    PassResult :=
  let seeds := seeds.filter w.graph.has
  w.runPass tile interest false (w.graph.forward seeds) seeds

/-- Compiles a node and all that is reached forward from it. -/
def onChange (w : Workspace) (tile : WorldTile) (interest : Interest) (node : NodeId) :
    PassResult :=
  w.recalculate tile interest [node]

end Workspace

namespace Change

/-- The nodes whose values a change may have changed. -/
def affected : Change → List NodeId
  | nodeAdded id | paramsChanged id => [id]
  | nodeRemoved _ readers => readers
  | connected c | disconnected c => [c.source.node, c.target.node]
  | portAdded p | portRemoved p => [p.node]
  | seedChanged => []

end Change

namespace Workspace

/-- Works off the journal: a pass over what its changes affect, or over every node where the
seed of the graph has changed. An empty journal asks for no pass. -/
def applyChanges (w : Workspace) (tile : WorldTile) (interest : Interest) : PassResult :=
  let (changes, w) := w.drain
  if changes.isEmpty then { workspace := w }
  else if changes.any (· = .seedChanged) then w.traverseAll tile interest
  else w.recalculate tile interest (changes.flatMap Change.affected).eraseDups

/-- Saves a workspace and loads it again: the graph comes back as it was, but for its journal,
and nothing is compiled. -/
def reload (w : Workspace) : Workspace :=
  { w with graph := { w.graph with changes := [] }, compiled := {} }

end Workspace
end Terrain
