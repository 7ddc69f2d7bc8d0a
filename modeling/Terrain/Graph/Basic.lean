import Terrain.Graph.Node

/-! Graphs: nodes, the connections between their ports, and the journal of changes. -/
namespace Terrain

structure Connection where
  source : PortRef
  target : PortRef
  deriving DecidableEq

/-- What a successful edit has changed. -/
inductive Change
  | nodeAdded (node : NodeId)
  /-- The nodes that were reading from the removed one are listed with it. -/
  | nodeRemoved (node : NodeId) (readers : List NodeId)
  | connected (connection : Connection)
  | disconnected (connection : Connection)
  | paramsChanged (node : NodeId)
  | portAdded (port : PortRef)
  | portRemoved (port : PortRef)
  | seedChanged
  deriving DecidableEq

/-- A graph. One with an id is bound: it stands for an entry of the host's, and keeps the nodes
that play a role. -/
structure Graph where
  id : Option String := none
  seed : Seed := 0
  /-- The nodes in the order of their ids. -/
  nodes : List Node := []
  connections : List Connection := []
  /-- The id that the next new node is given. -/
  nextNode : Nat := 0
  /-- The number of changes ever recorded. -/
  revision : Nat := 0
  /-- The changes recorded since the journal was last drained. -/
  changes : List Change := []

namespace Graph

/-- The node with an id. -/
def node? (g : Graph) (id : NodeId) : Option Node := g.nodes.find? (·.id = id)

def nodeIds (g : Graph) : List NodeId := g.nodes.map (·.id)

def has (g : Graph) (id : NodeId) : Bool := (g.node? id).isSome

/-- The connection that ends at an input. -/
def connectionTo? (g : Graph) (target : PortRef) : Option Connection :=
  g.connections.find? (·.target = target)

/-- The output that feeds an input. -/
def sourceOf? (g : Graph) (target : PortRef) : Option PortRef :=
  (g.connectionTo? target).map (·.source)

/-- The distinct nodes that feed a node, in the order of the connections. -/
def feeders (g : Graph) (id : NodeId) : List NodeId :=
  ((g.connections.filter (·.target.node = id)).map (·.source.node)).eraseDups

/-- The distinct nodes that read from a node, in the order of the connections. -/
def readers (g : Graph) (id : NodeId) : List NodeId :=
  ((g.connections.filter (·.source.node = id)).map (·.target.node)).eraseDups

/-- The nodes no input of which is connected. -/
def roots (g : Graph) : List NodeId :=
  g.nodeIds.filter fun id => !g.connections.any (·.target.node = id)

/-- One round of spreading forward: the nodes reached, and those that read from them. -/
def spread (g : Graph) (reached : List NodeId) : List NodeId :=
  g.connections.foldl (fun acc c =>
    if acc.contains c.source.node && !acc.contains c.target.node then acc ++ [c.target.node]
    else acc) reached

/-- The nodes reached forward from `seeds`, which are among them. A round that reaches a new
node uses a connection of its own, so there are enough rounds. -/
def forward (g : Graph) (seeds : List NodeId) : List NodeId :=
  Nat.repeat g.spread g.connections.length seeds.eraseDups

/-- The nodes that play a role. -/
def holders (g : Graph) (role : Role) : List NodeId :=
  (g.nodes.filter (·.kind.role? = some role)).map (·.id)

def record (g : Graph) (change : Change) : Graph :=
  { g with revision := g.revision + 1, changes := g.changes ++ [change] }

def drain (g : Graph) : List Change × Graph := (g.changes, { g with changes := [] })

def modifyNode (g : Graph) (id : NodeId) (f : Node → Node) : Graph :=
  { g with nodes := g.nodes.map fun n => if n.id = id then f n else n }

end Graph
end Terrain
