import Terrain.Compile.Feed

/-! Operator nodes: the fold of a list of inputs, as a supplier or as a grid. -/
namespace Terrain
namespace Grid

/-- Folds a row of layers into a grid. The layer whose position is `n` takes part when the coin
of that position comes up; an empty one contributes nothing. -/
def foldLayers (operation : Operation) (flip : Nat → Bool) :
    List (Option ValueGrid) → Nat → ValueGrid → ValueGrid
  | [], _, acc => acc
  | none :: rest, n, acc => foldLayers operation flip rest (n + 1) acc
  | some layer :: rest, n, acc =>
    foldLayers operation flip rest (n + 1) (if flip n then combine operation acc layer else acc)

/-- Folds a row of slots into a grid. The coins are flipped once, so the grid is a pure
function. An empty base starts the fold at the neutral number. -/
def foldSlots (operation : Operation) (chance : Scalar) (seed : Seed) :
    List (Option ValueGrid) → ValueGrid
  | [] => const operation.neutral
  | base :: layers =>
    foldLayers operation (Random.flip seed chance) layers 0
      (base.getD (const operation.neutral))

end Grid

namespace Scope

/-- What an input contributes to a fold. -/
def contribution (s : Scope) (port : Port) : Compile (Option PortValue) := do
  match s.feed port with
  | .connected v => return some v
  | .literal l => return some (.constant l.asNumber)
  | .absent =>
    Compile.notify (.inputLeftOut port.name s.node.id)
    return none
  | .missing => return none

/-- A contribution to a fold of grids. A supplier is read once, and its value holds
everywhere. -/
def layer : Option PortValue → Compile (Option ValueGrid)
  | some (.valueGrid g) => return some g
  | some (.value x) => return some (.const (← Compile.read x))
  | _ => return none

/-- The layers beyond the base whose coins do not come up, counted from one. -/
def layersLeftOut (chance : Scalar) (seed : Seed) (layers : Nat) : List Nat :=
  ((List.range layers).filter fun n => !Random.flip seed chance n).map (· + 1)

def fold (s : Scope) (p : OperatorParams) : Compile PortValue := do
  let slots ← s.node.dynamic.mapM s.contribution
  match p.target with
  | .value =>
    let inputs := slots.map (·.bind (PortValue.supplier? .number))
    let folded := Supplier.operated p.operation (.ofList inputs) p.chance s.seed
      (← Compile.newCell)
    return .value (← Compile.cache folded)
  | .valueGrid =>
    let grids ← slots.mapM layer
    (layersLeftOut p.chance s.seed (grids.length - 1)).forM fun n =>
      Compile.notify (.layerLeftOut n)
    return .valueGrid (Grid.foldSlots p.operation p.chance s.seed grids)

end Scope
end Terrain
