import Terrain.Compile.Choice
import Terrain.Compile.Fold

/-! Compiling a node: from its kind and what arrives at its inputs to the values of its
outputs. -/
namespace Terrain
namespace Scope

def tileOutputs (tile : WorldTile) : List PortValue :=
  TileField.all.map fun f => .ofSupplier (.const (f.value tile))

/-- A random number, drawn once and kept until the next reset. -/
def randomDraw (s : Scope) (lo hi : Scalar) : Compile PortValue := do
  let draw := Supplier.random lo hi s.seed (← Compile.newCell)
  return .value (← Compile.cache draw)

/-- The number that a table gives the token that arrives. -/
def lookUp (s : Scope) (table : TokenTable) : Compile PortValue := do
  let token := (s.feed (← s.input "token")).supplier .token
  return .value (.map token table.look)

/-- A grid that is everywhere the number that arrives. -/
def spreadNumber (s : Scope) : Compile PortValue :=
  return .valueGrid (.const (← s.number "value"))

/-- The noise field of a noise node, mapped by its factor and bias. -/
def noiseGrid (p : NoiseParams) (seed : Seed) : ValueGrid :=
  let field : Noise.Fractal := .build p.flavour
    { frequency := p.frequency
      lacunarity := p.lacunarity
      persistence := p.persistence
      octaves := p.octaves
      seed }
  (Grid.fractal field).scaleBias p.scale p.bias

/-- The grid that arrives, turned by the angle that arrives. -/
def rotated (s : Scope) (pivot : Point) : Compile PortValue := do
  let input ← s.needGrid "input"
  return .valueGrid (input.rotate pivot (← s.number "angle"))

/-- The grid that arrives, changed by a function. -/
def mapped (s : Scope) (f : ValueGrid → ValueGrid) : Compile PortValue :=
  return .valueGrid (f (← s.needGrid "input"))

/-- The interpolation of the grids that arrive; zero stands in for one that does not. -/
def interpolated (s : Scope) : Compile PortValue := do
  let zero : ValueGrid := .const 0
  let a ← s.grid? "a"
  let b ← s.grid? "b"
  let t ← s.grid? "t"
  return .valueGrid (Grid.lerp (a.getD zero) (b.getD zero) (t.getD zero))

/-- What an output node offers: the value that arrives, if one does. A literal is not
offered. -/
def offered (s : Scope) : Compile (Option PortValue) := do
  match s.feed (← s.input "input") with
  | .connected v => return some v
  | .absent =>
    Compile.notify (.outputWithoutValue s.node.id)
    return none
  | .literal _ | .missing => return none

/-- A node with a single output. -/
def single (value : Compile PortValue) : Compile Compiled :=
  return { outputs := [← value] }

def compile (s : Scope) : Compile Compiled :=
  match s.node.kind with
  | .manifest _ | .tileRequirements _ => return {}
  | .worldTile => return { outputs := tileOutputs s.tile }
  | .constValue v => single (return .constant v)
  | .randomValue lo hi => single (s.randomDraw lo hi)
  | .constToken _ token => single (return .token (.const token))
  | .tokenToValue table => single (s.lookUp table)
  | .gridFromValue => single s.spreadNumber
  | .gridNoise p => single (return .valueGrid (noiseGrid p s.seed))
  | .gridSpanDistance field => single (return .valueGrid field.grid)
  | .gridRotate pivot => single (s.rotated pivot)
  | .gridTransform translate scale => single (s.mapped (·.transform translate scale))
  | .gridLinear p => single (s.mapped fun g => (g.scaleBias p.scale p.bias).clamp p.min p.max)
  | .gridInvert => single (s.mapped Grid.invert)
  | .gridLerp => single s.interpolated
  | .operator p => single (s.fold p)
  | .select p => single (s.select p)
  | .output _ => return { result := ← s.offered }

end Scope
end Terrain
