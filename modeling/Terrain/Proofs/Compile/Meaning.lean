import Terrain.Compile.Node
import Terrain.Proofs.Supplier.Value

/-! What nodes mean: the values that a node shows at its outputs, as a function of the values that
arrive at its inputs. Suppliers count by their values alone, so cells and stores do not occur, and
a node that reads a supplier at once cannot be told from one that passes it on. -/
namespace Terrain

/-- What a port value shows: the value of a supplier, or a grid. -/
inductive View
  | number (v : Scalar)
  | token (v : Option Token)
  | valueGrid (grid : ValueGrid)
  | tokenGrid (grid : TokenGrid)

namespace View

def ofValue : {s : Signal} → s.Carrier → View
  | .number, v => .number v
  | .token, v => .token v

def ofGrid : (s : Signal) → Grid s.Carrier → View
  | .number, g => .valueGrid g
  | .token, g => .tokenGrid g

/-- The single value of a sort, if there is one. -/
def value? : (s : Signal) → View → Option s.Carrier
  | .number, .number v => some v
  | .token, .token v => some v
  | _, _ => none

/-- The grid of a sort, if there is one. -/
def grid? : (s : Signal) → View → Option (Grid s.Carrier)
  | .number, .valueGrid g => some g
  | .token, .tokenGrid g => some g
  | _, _ => none

/-- A contribution to a fold of grids: a number holds everywhere. -/
def layer? : View → Option ValueGrid
  | .valueGrid g => some g
  | .number v => some (.const v)
  | _ => none

end View

/-- What a port value shows, by the value of its supplier. -/
def PortValue.view : PortValue → View
  | .value x => .number x.value
  | .token x => .token x.value
  | .valueGrid g => .valueGrid g
  | .tokenGrid g => .tokenGrid g

/-- What a node shows: a view for each output port in order, and for an output node the view that
it offers to the host. -/
structure Meaning where
  outputs : List View := []
  result : Option View := none

def Meaning.single (v : View) : Meaning := { outputs := [v] }

def Compiled.meaning (k : Compiled) : Meaning :=
  ⟨k.outputs.map PortValue.view, k.result.map PortValue.view⟩

/-- What arrives at an input. -/
inductive Arrival
  | connected (v : View)
  /-- The input is connected to a node that shows nothing. -/
  | absent
  | literal (l : Literal)
  /-- The input is not connected and holds no literal. -/
  | missing

namespace Arrival

/-- An arrival as a single value; where nothing arrives it is blank. -/
def value (s : Signal) : Arrival → s.Carrier
  | connected v => (v.value? s).getD s.blank
  | literal l => l.read s
  | absent | missing => s.blank

/-- An arrival as a grid; a single value holds everywhere. -/
def grid (s : Signal) : Arrival → Grid s.Carrier
  | connected v =>
    match v.grid? s, v.value? s with
    | some g, _ => g
    | none, some v => .const v
    | none, none => .const s.blank
  | literal l => .const (l.read s)
  | absent | missing => .const s.blank

/-- The literal of the port stands in for a node that shows nothing. -/
def orLiteral (port : Port) : Arrival → Arrival
  | absent =>
    match port.literal with
    | some l => literal l
    | none => missing
  | arrival => arrival

def number? : Arrival → Option Scalar
  | connected v => v.value? .number
  | literal l => some l.asNumber
  | absent | missing => none

def grid? : Arrival → Option ValueGrid
  | connected v => v.grid? .number
  | literal l => some (.const l.asNumber)
  | absent | missing => none

def contribution : Arrival → Option View
  | connected v => some v
  | literal l => some (.number l.asNumber)
  | absent | missing => none

/-- What an arrival offers to the host; a literal is not offered. -/
def offered : Arrival → Option View
  | connected v => some v
  | absent | literal _ | missing => none

end Arrival

namespace Node
variable (n : Node) (arrive : Port → Arrival)

def portAt (name : String) : Except CompileFault Port :=
  match n.inputNamed? name with
  | some port => .ok port
  | none => .error (.noInputNamed name)

/-- What arrives at the input of a name. -/
def arrivalAt (name : String) : Except CompileFault Arrival := return arrive (← n.portAt name)

/-- What arrives at the input of a name, or its literal where it is connected to a node that shows
nothing. -/
def arrivalOrLiteral (name : String) : Except CompileFault Arrival := do
  let port ← n.portAt name
  return (arrive port).orLiteral port

def gridAt (name : String) : Except CompileFault (Option ValueGrid) :=
  return (← n.arrivalOrLiteral arrive name).grid?

/-- The grid of numbers that has to arrive at the input of a name. -/
def neededAt (name : String) : Except CompileFault ValueGrid := do
  match ← n.gridAt arrive name with
  | some g => return g
  | none => throw (.noValue name)

def numberAt? (name : String) : Except CompileFault (Option Scalar) :=
  return (← n.arrivalOrLiteral arrive name).number?

/-- The number at the input of a name; zero where none arrives. -/
def numberAt (name : String) : Except CompileFault Scalar :=
  return (← n.numberAt? arrive name).getD 0

def folding (p : OperatorParams) (seed : Seed) : View :=
  let slots := n.dynamic.map fun port => (arrive port).contribution
  match p.target with
  | .value =>
    .number (p.operation.foldSlots p.chance seed (slots.map (·.bind (View.value? .number))))
  | .valueGrid =>
    .valueGrid (Grid.foldSlots p.operation p.chance seed (slots.map (·.bind View.layer?)))

/-- The choice of a select node over options of one sort. -/
def choosing (sort : Signal) (p : SelectParams) : Except CompileFault View := do
  let axis ← n.arrivalAt arrive "axis"
  let options := n.dynamic.map arrive
  if p.resultType.isGrid then
    return .ofGrid sort
      (Grid.select sort.blank (axis.grid .number) p.thresholds (options.map (·.grid sort)))
  else
    return .ofValue
      (sort.chosen (axis.value .number) p.thresholds (options.map fun a => some (a.value sort)))

/-- What a node shows, by what arrives at its inputs. -/
def meaning (seed : Seed) (tile : WorldTile) : Except CompileFault Meaning :=
  match n.kind with
  | .manifest _ | .tileRequirements _ => return {}
  | .worldTile => return { outputs := TileField.all.map fun f => .ofValue (f.value tile) }
  | .constValue v => return .single (.number v)
  | .randomValue lo hi => return .single (.number (lo + (hi - lo) * Random.unit (seed.draw 0)))
  | .constToken _ token => return .single (.token token)
  | .tokenToValue table =>
    return .single (.number (table.look ((← n.arrivalAt arrive "token").value .token)))
  | .gridFromValue => return .single (.valueGrid (.const (← n.numberAt arrive "value")))
  | .gridNoise p => return .single (.valueGrid (Scope.noiseGrid p seed))
  | .gridSpanDistance field => return .single (.valueGrid field.grid)
  | .gridRotate pivot => do
    let input ← n.neededAt arrive "input"
    return .single (.valueGrid (input.rotate pivot (← n.numberAt arrive "angle")))
  | .gridTransform translate scale =>
    return .single (.valueGrid ((← n.neededAt arrive "input").transform translate scale))
  | .gridLinear p =>
    return .single (.valueGrid
      (((← n.neededAt arrive "input").scaleBias p.scale p.bias).clamp p.min p.max))
  | .gridInvert => return .single (.valueGrid (← n.neededAt arrive "input").invert)
  | .gridLerp => do
    let a ← n.gridAt arrive "a"
    let b ← n.gridAt arrive "b"
    let t ← n.gridAt arrive "t"
    return .single (.valueGrid
      (Grid.lerp (a.getD (.const 0)) (b.getD (.const 0)) (t.getD (.const 0))))
  | .operator p => return .single (n.folding arrive p seed)
  | .select p =>
    match p.axis with
    | .value | .valueGrid => return .single (← n.choosing arrive p.options.signal p)
    | .token _ | .tokenGrid _ => throw .axisNotNumeric
  | .output _ => return { result := (← n.arrivalAt arrive "input").offered }

end Node

namespace Graph

/-- The view of an output port, where nodes show `σ`. -/
def viewOf? (g : Graph) (σ : NodeId → Option Meaning) (p : PortRef) : Option View := do
  let n ← g.node? p.node
  let place ← n.outputs.findIdx? (·.id = p.port)
  let meaning ← σ p.node
  meaning.outputs[place]?

/-- What arrives at an input of a node, where nodes show `σ`. -/
def arrival (g : Graph) (σ : NodeId → Option Meaning) (n : Node) (port : Port) : Arrival :=
  match g.sourceOf? ⟨n.id, port.id⟩ with
  | some source =>
    match g.viewOf? σ source with
    | some v => .connected v
    | none => .absent
  | none =>
    match port.literal with
    | some l => .literal l
    | none => .missing

/-- What a node has to show, where the nodes that feed it show `σ`. -/
def due (g : Graph) (tile : WorldTile) (σ : NodeId → Option Meaning) (n : Node) :
    Except CompileFault Meaning :=
  n.meaning (g.arrival σ n) (Seed.combined n.seed g.seed) tile

end Graph

/-- What the nodes of a compilation show. -/
def Compilation.shows (table : Compilation) (id : NodeId) : Option Meaning :=
  table[id]?.map Compiled.meaning

end Terrain
