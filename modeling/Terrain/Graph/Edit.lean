import Terrain.Graph.Basic
import Terrain.Notice

/-! Edits of a graph. An edit is either refused, which leaves the graph as it was, or made, and
then every change it makes is in the journal. -/
namespace Terrain

inductive Direction
  | input
  | output
  deriving DecidableEq

namespace Graph

/-- The node with an id, or the error that there is none. -/
def findNode (g : Graph) (id : NodeId) : Except GraphError Node :=
  match g.node? id with
  | some n => .ok n
  | none => .error (.unknownNode id)

def findPort (g : Graph) (p : PortRef) : Except GraphError (Direction × Port) := do
  let n ← g.findNode p.node
  match n.input? p.port, n.output? p.port with
  | some port, _ => return (.input, port)
  | none, some port => return (.output, port)
  | none, none => throw (.unknownPort p)

/-- The port of a node by its name, sought among the inputs first. -/
def portNamed (g : Graph) (id : NodeId) (name : String) : Except GraphError PortRef := do
  let n ← g.findNode id
  match n.portNamed? name with
  | some port => return ⟨id, port.id⟩
  | none => throw (.noPortNamed id name)

/-- Takes a node out of the graph, with the connections that touch it. -/
def detach (g : Graph) (id : NodeId) : Graph :=
  { g with
    nodes := g.nodes.filter (·.id ≠ id)
    connections := g.connections.filter fun c => c.source.node ≠ id && c.target.node ≠ id }.record
    (.nodeRemoved id (g.readers id))

/-- The nodes that a new node of a kind replaces: those that play its role. -/
def replacedBy (g : Graph) (kind : Kind) : List NodeId :=
  match kind.role? with
  | some role => g.holders role
  | none => []

/-- Adds a node. A node that plays a role takes it over from the one that had it. -/
def addNode (g : Graph) (kind : Kind) : NodeId × Graph :=
  let g := (g.replacedBy kind).foldl detach g
  let id : NodeId := ⟨g.nextNode⟩
  let n := Node.create id kind (Seed.ofIndex id.index)
  (id, { g with nodes := g.nodes ++ [n], nextNode := g.nextNode + 1 }.record (.nodeAdded id))

/-- Removes a node. A bound graph keeps the last node that plays a role. -/
def removeNode (g : Graph) (id : NodeId) : Except GraphError Graph := do
  let n ← g.findNode id
  match n.kind.role?, g.id with
  | some role, some name =>
    if (g.holders role).length ≤ 1 then throw (.singletonViolation role.label name)
    else return g.detach id
  | _, _ => return g.detach id

/-- Takes away the connection that ends at an input, if there is one. -/
def unplug (g : Graph) (target : PortRef) : Graph :=
  match g.connectionTo? target with
  | none => g
  | some old =>
    { g with connections := g.connections.eraseP (·.target = target) }.record (.disconnected old)

/-- Connects an output to an input, in place of the connection that the input had. To connect
what is connected already changes nothing. -/
def connect (g : Graph) (source target : PortRef) : Except GraphError Graph := do
  let (sourceDirection, output) ← g.findPort source
  let (targetDirection, input) ← g.findPort target
  if sourceDirection ≠ .output || targetDirection ≠ .input then
    throw (.invalidConnection source target .wrongDirection)
  if source.node = target.node then
    throw (.invalidConnection source target .selfFed)
  if output.type ≠ input.type then
    throw (.incompatibleType target input.type output.type)
  if g.sourceOf? target = some source then
    return g
  let g := g.unplug target
  let c : Connection := ⟨source, target⟩
  return { g with connections := g.connections ++ [c] }.record (.connected c)

def connectNamed (g : Graph) (source : NodeId) (output : String) (target : NodeId)
    (input : String) : Except GraphError Graph := do
  let source ← g.portNamed source output
  let target ← g.portNamed target input
  g.connect source target

/-- Takes away the connection that ends at an input, and answers which it was. -/
def disconnect (g : Graph) (target : PortRef) : Except GraphError (Option Connection × Graph) := do
  let _ ← g.findPort target
  return (g.connectionTo? target, g.unplug target)

/-- Adds an input to the list of a node that can grow. -/
def addPort (g : Graph) (id : NodeId) (type : PortType) : Except GraphError (PortId × Graph) := do
  let n ← g.findNode id
  match n.kind.layout.dynamic with
  | none => throw (.notDynamic id)
  | some d =>
    let port : PortId := ⟨n.nextPort⟩
    if d.type ≠ type then throw (.incompatibleType ⟨id, port⟩ d.type type)
    return (port, (g.modifyNode id (·.pushDynamic d)).record (.portAdded ⟨id, port⟩))

/-- Removes an input of the list that can grow, with its connection. -/
def removePort (g : Graph) (p : PortRef) : Except GraphError Graph := do
  let n ← g.findNode p.node
  match n.kind.layout.dynamic with
  | none => throw (.notDynamic p.node)
  | some d =>
    if !(n.input? p.port).any (·.dynamic) then throw (.unknownPort p)
    if n.dynamic.length ≤ d.least then throw (.arityViolation p.node d.least)
    return ((g.modifyNode p.node (·.dropDynamic d p.port)).unplug p).record (.portRemoved p)

/-- Replaces the kind of a node by one with the same port types. A kind that compares equal to
the present one changes nothing. -/
def editNode (g : Graph) (id : NodeId) (kind : Kind) : Except GraphError Graph := do
  let n ← g.findNode id
  if kind.signature ≠ n.kind.signature then throw (.signatureChange id)
  if kind == n.kind then return g
  return (g.modifyNode id ({ · with kind })).record (.paramsChanged id)

def setLiteral (g : Graph) (p : PortRef) (literal : Literal) : Except GraphError Graph := do
  let n ← g.findNode p.node
  match n.input? p.port with
  | none => throw (.unknownPort p)
  | some port =>
    if !port.type.accepts literal then throw (.incompatibleLiteral p)
    return (g.modifyNode p.node (·.setLiteral p.port literal)).record (.paramsChanged p.node)

def setNodeSeed (g : Graph) (id : NodeId) (seed : Seed) : Except GraphError Graph := do
  let n ← g.findNode id
  if n.seed = seed then return g
  return (g.modifyNode id ({ · with seed })).record (.paramsChanged id)

def setSeed (g : Graph) (seed : Seed) : Graph :=
  if g.seed = seed then g else { g with seed }.record .seedChanged

end Graph

inductive Edit
  | addNode (kind : Kind)
  | removeNode (node : NodeId)
  | editNode (node : NodeId) (kind : Kind)
  | connect (source target : PortRef)
  | connectNamed (source : NodeId) (output : String) (target : NodeId) (input : String)
  | disconnect (target : PortRef)
  | addPort (node : NodeId) (type : PortType)
  | removePort (port : PortRef)
  | setLiteral (port : PortRef) (literal : Literal)
  | setNodeSeed (node : NodeId) (seed : Seed)
  | setSeed (seed : Seed)

inductive Reply
  | done
  | node (id : NodeId)
  | port (id : PortId)
  | connection (c : Option Connection)

namespace Graph

/-- Makes an edit: its answer and the new graph, or the reason why it is refused. -/
def perform (g : Graph) : Edit → Except GraphError (Reply × Graph)
  | .addNode kind => let (id, g) := g.addNode kind; .ok (.node id, g)
  | .removeNode id => (g.removeNode id).map (.done, ·)
  | .editNode id kind => (g.editNode id kind).map (.done, ·)
  | .connect source target => (g.connect source target).map (.done, ·)
  | .connectNamed source output target input =>
    (g.connectNamed source output target input).map (.done, ·)
  | .disconnect target => (g.disconnect target).map fun (c, g) => (.connection c, g)
  | .addPort id type => (g.addPort id type).map fun (port, g) => (.port port, g)
  | .removePort p => (g.removePort p).map (.done, ·)
  | .setLiteral p literal => (g.setLiteral p literal).map (.done, ·)
  | .setNodeSeed id seed => (g.setNodeSeed id seed).map (.done, ·)
  | .setSeed seed => .ok (.done, g.setSeed seed)

/-- What making an edit has noticed. -/
def notices (g : Graph) : Edit → List Notice
  | .addNode kind =>
    match kind.role? with
    | some role => (g.replacedBy kind).map (.roleReplaced · role)
    | none => []
  | _ => []

/-- The graph after an edit, which is the graph before it where the edit is refused. -/
def after (g : Graph) (e : Edit) : Graph :=
  match g.perform e with
  | .ok (_, g) => g
  | .error _ => g

end Graph
end Terrain
