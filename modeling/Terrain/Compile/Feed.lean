import Terrain.Compile.Value
import Terrain.Notice

/-! What arrives at the inputs of a node that is being compiled. -/
namespace Terrain

/-- What compiling a node touches besides its result. -/
structure Effects where
  store : Store
  notices : List Notice := []

/-- A computation that compiles a node, or part of one. A failure keeps the effects that came
before it. -/
abbrev Compile := ExceptT GraphError (StateM Effects)

namespace Compile

def notify (n : Notice) : Compile Unit :=
  modify fun e => { e with notices := e.notices ++ [n] }

def newCell : Compile Cell :=
  modifyGet fun e => let (c, store) := e.store.allocate; (c, { e with store })

/-- The value of a supplier at its start. -/
def read {s : Signal} (x : Supplier s) : Compile s.Carrier :=
  modifyGet fun e => let (v, store) := x.read e.store; (v, { e with store })

/-- A supplier that keeps the first value of another. -/
def cache {s : Signal} (x : Supplier s) : Compile (Supplier s) :=
  return .cached x (← newCell)

end Compile

/-- What arrives at an input. -/
inductive Feed
  | connected (v : PortValue)
  /-- The input is connected to a node that has no value. -/
  | absent
  | literal (l : Literal)
  /-- The input is not connected and holds no literal. -/
  | missing

namespace Feed

/-- A feed as a supplier; where nothing arrives it supplies the blank value. -/
def supplier (s : Signal) : Feed → Supplier s
  | connected v => (v.supplier? s).getD (.const s.blank)
  | literal l => .const (l.read s)
  | absent | missing => .const s.blank

/-- A feed as a grid. A supplier is read once, and its value holds everywhere. -/
def grid (s : Signal) : Feed → Compile (Grid s.Carrier)
  | connected v =>
    match v.grid? s, v.supplier? s with
    | some g, _ => return g
    | none, some x => return .const (← Compile.read x)
    | none, none => return .const s.blank
  | literal l => return .const (l.read s)
  | absent | missing => return .const s.blank

end Feed

/-- What compiling a node reads. -/
structure Scope where
  graph : Graph
  compiled : Compilation
  tile : WorldTile
  node : Node

namespace Scope

def seed (s : Scope) : Seed := Seed.combined s.node.seed s.graph.seed

/-- What arrives at an input of the node. -/
def feed (s : Scope) (port : Port) : Feed :=
  match s.graph.sourceOf? ⟨s.node.id, port.id⟩ with
  | some source =>
    match s.compiled.value? s.graph source with
    | some v => .connected v
    | none => .absent
  | none =>
    match port.literal with
    | some l => .literal l
    | none => .missing

def fail {α : Type} (s : Scope) (fault : CompileFault) : Compile α :=
  throw (.compileFailure s.node.id fault)

def input (s : Scope) (name : String) : Compile Port :=
  match s.node.inputNamed? name with
  | some port => return port
  | none => s.fail (.noInputNamed name)

/-- What arrives at an input, or its literal where it is connected to a node without a value. -/
def feedOrLiteral (s : Scope) (port : Port) : Compile Feed := do
  match s.feed port with
  | .absent =>
    Compile.notify (.literalUsed port.name s.node.id)
    match port.literal with
    | some l => return .literal l
    | none => return .missing
  | other => return other

/-- The numbers that arrive at a named input. -/
def numbers? (s : Scope) (name : String) : Compile (Option (Supplier .number)) := do
  match ← s.feedOrLiteral (← s.input name) with
  | .connected v => return v.supplier? .number
  | .literal l => return some (.const l.asNumber)
  | .absent | .missing => return none

def grid? (s : Scope) (name : String) : Compile (Option ValueGrid) := do
  match ← s.feedOrLiteral (← s.input name) with
  | .connected v => return v.grid? .number
  | .literal l => return some (.const l.asNumber)
  | .absent | .missing => return none

/-- The grid of numbers that has to arrive at a named input. -/
def needGrid (s : Scope) (name : String) : Compile ValueGrid := do
  match ← s.grid? name with
  | some g => return g
  | none => s.fail (.noValue name)

/-- The number at a named input, read once; zero where none arrives. -/
def number (s : Scope) (name : String) : Compile Scalar := do
  match ← s.numbers? name with
  | some x => Compile.read x
  | none => return (0 : Scalar)

end Scope
end Terrain
