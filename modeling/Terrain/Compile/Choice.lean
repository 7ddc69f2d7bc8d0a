import Terrain.Compile.Feed

/-! Select nodes: one of the options, chosen by where an axis falls among thresholds. -/
namespace Terrain
namespace Scope

/-- A select node over options of one sort. An option at which nothing arrives keeps its place
and counts as blank. -/
def choose (s : Scope) (sort : Signal) (p : SelectParams) : Compile PortValue := do
  let axis := s.feed (← s.input "axis")
  let options := s.node.dynamic.map s.feed
  if p.resultType.isGrid then
    let axis ← axis.grid .number
    let options ← options.mapM (Feed.grid sort)
    return .ofGrid sort (Grid.select sort.blank axis p.thresholds options)
  else
    let row := Slots.ofList (options.map fun feed => some (feed.supplier sort))
    return .ofSupplier (← Compile.cache (.selected (axis.supplier .number) p.thresholds row))

/-- Compiles a select node. Its axis has to carry numbers. -/
def select (s : Scope) (p : SelectParams) : Compile PortValue := do
  match p.axis with
  | .value | .valueGrid => s.choose p.options.signal p
  | .token _ | .tokenGrid _ =>
    Compile.notify (.axisRefused s.node.id p.axis)
    s.fail .axisNotNumeric

end Scope
end Terrain
