import Terrain.Graph.Kind

/-! Nodes: a kind, with the ports that its layout has been given. -/
namespace Terrain

/-- A node of a graph. -/
structure Node where
  id : NodeId
  kind : Kind
  seed : Seed
  /-- The inputs, those that the layout fixes and those of the list that can grow. -/
  inputs : List Port := []
  outputs : List Port := []
  /-- The word of the id that the next new port is given. It goes around when no word is left. -/
  nextPort : UInt32 := 0

namespace Node

/-- The inputs that the layout fixes. -/
def fixed (n : Node) : List Port := n.inputs.filter (!·.dynamic)

/-- The inputs of the list that can grow. -/
def dynamic (n : Node) : List Port := n.inputs.filter (·.dynamic)

/-- The first input with an id. -/
def input? (n : Node) (id : PortId) : Option Port := n.inputs.find? (·.id = id)

def output? (n : Node) (id : PortId) : Option Port := n.outputs.find? (·.id = id)

def inputNamed? (n : Node) (name : String) : Option Port := n.inputs.find? (·.name = name)

def outputNamed? (n : Node) (name : String) : Option Port := n.outputs.find? (·.name = name)

/-- The port of a name, sought among the inputs and then among the outputs. -/
def portNamed? (n : Node) (name : String) : Option Port :=
  (n.inputNamed? name).or (n.outputNamed? name)

def pushInput (n : Node) (d : PortDecl) : Node :=
  { n with inputs := n.inputs ++ [d.port ⟨n.nextPort⟩], nextPort := n.nextPort + 1 }

def pushOutput (n : Node) (d : PortDecl) : Node :=
  { n with outputs := n.outputs ++ [d.port ⟨n.nextPort⟩], nextPort := n.nextPort + 1 }

/-- Adds a port to the end of the list that can grow. -/
def pushDynamic (n : Node) (d : DynamicDecl) : Node :=
  { n with
    inputs := n.inputs ++ [d.port ⟨n.nextPort⟩ n.dynamic.length]
    nextPort := n.nextPort + 1 }

/-- Takes the first port with an id out of the list that can grow; the ports left are named anew by
their place. -/
def dropDynamic (n : Node) (d : DynamicDecl) (id : PortId) : Node :=
  { n with inputs := d.rename 0 (n.inputs.eraseP fun p => p.id = id && p.dynamic) }

/-- Gives a literal to the first input with an id. -/
def setLiteral (n : Node) (id : PortId) (literal : Literal) : Node :=
  let place := n.inputs.findIdx (·.id = id)
  { n with inputs := n.inputs.modify place ({ · with literal := some literal }) }

/-- A new node: the ports of its layout are numbered inputs first, then outputs, then the least
number of inputs of the list that can grow. -/
def create (id : NodeId) (kind : Kind) (seed : Seed) : Node :=
  let l := kind.layout
  let bare := l.outputs.foldl pushOutput (l.inputs.foldl pushInput { id, kind, seed })
  match l.dynamic with
  | none => bare
  | some d => Nat.repeat (·.pushDynamic d) d.least bare

end Node
end Terrain
