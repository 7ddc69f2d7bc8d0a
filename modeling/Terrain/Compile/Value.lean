import Std.Data.HashMap
import Terrain.Graph.Basic
import Terrain.Supplier.Basic

/-! What nodes compile to. -/
namespace Terrain

/-- The form of a compiled value. -/
inductive Shape
  | value
  | token
  | valueGrid
  | tokenGrid
  deriving DecidableEq

def Shape.name : Shape → String
  | value => "PortValue::Value"
  | token => "PortValue::Token"
  | valueGrid => "PortValue::ValueGrid"
  | tokenGrid => "PortValue::TokenGrid"

def PortType.shape : PortType → Shape
  | value => .value
  | token _ => .token
  | valueGrid => .valueGrid
  | tokenGrid _ => .tokenGrid

/-- The value that an output port holds once its node is compiled. -/
inductive PortValue
  | value (supplier : Supplier .number)
  | token (supplier : Supplier .token)
  | valueGrid (grid : ValueGrid)
  | tokenGrid (grid : TokenGrid)

namespace PortValue

def shape : PortValue → Shape
  | value _ => .value
  | token _ => .token
  | valueGrid _ => .valueGrid
  | tokenGrid _ => .tokenGrid

/-- The value that supplies one number. -/
def constant (v : Scalar) : PortValue := .value (.const v)

def ofSupplier : {s : Signal} → Supplier s → PortValue
  | .number, x => .value x
  | .token, x => .token x

def ofGrid : (s : Signal) → Grid s.Carrier → PortValue
  | .number, g => .valueGrid g
  | .token, g => .tokenGrid g

/-- The supplier of a port value, if it is one of the sort asked for. -/
def supplier? : (s : Signal) → PortValue → Option (Supplier s)
  | .number, .value x => some x
  | .token, .token x => some x
  | _, _ => none

/-- The grid of a port value, if it is one of the sort asked for. -/
def grid? : (s : Signal) → PortValue → Option (Grid s.Carrier)
  | .number, .valueGrid g => some g
  | .token, .tokenGrid g => some g
  | _, _ => none

end PortValue

/-- What a node compiles to: a value for each output port in order, and for an output node the
value that it offers to the host. -/
structure Compiled where
  outputs : List PortValue := []
  result : Option PortValue := none

/-- What the nodes of a graph have compiled to. A node that has no entry is not calculated. -/
abbrev Compilation := Std.HashMap NodeId Compiled

namespace Compilation

def isCalculated (table : Compilation) (id : NodeId) : Bool := table.contains id

def value? (table : Compilation) (g : Graph) (p : PortRef) : Option PortValue := do
  let n ← g.node? p.node
  let place ← n.outputs.findIdx? (·.id = p.port)
  let compiled ← table[p.node]?
  compiled.outputs[place]?

/-- The value of the first output port of a node. -/
def primary? (table : Compilation) (id : NodeId) : Option PortValue := do
  let compiled ← table[id]?
  compiled.outputs.head?

/-- The value that an output node offers. -/
def result? (table : Compilation) (id : NodeId) : Option PortValue := do
  let compiled ← table[id]?
  compiled.result

end Compilation
end Terrain
