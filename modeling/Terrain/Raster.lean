import Terrain.Grid.Basic
import Terrain.HostMap

/-! Rasters: the samples of a grid in the cells of a map. -/
namespace Terrain

/-- Samples of a map's cells, row by row. -/
structure Raster (α : Type) where
  map : HostMap
  data : Array α

namespace Raster

/-- Samples a grid in the middle of every cell. -/
def bake {α : Type} (m : HostMap) (grid : Grid α) : Sampled (Raster α) := do
  let data ← m.cells.mapM fun c => grid.valueAt (m.center c)
  return ⟨m, data.toArray⟩

/-- The sample of a cell, if it is one of the map's. -/
def get? {α : Type} (r : Raster α) (c : MapCell) : Option α :=
  if r.map.has c then r.data[c.row.toNat * r.map.width.toNat + c.column.toNat]? else none

/-- The sample of the cell that a point lies in. -/
def sample? {α : Type} (r : Raster α) (p : Point) : Option α := do
  let c ← r.map.cellAt p
  r.get? c

def mapSamples {α β : Type} (f : α → β) (r : Raster α) : Raster β := ⟨r.map, r.data.map f⟩

end Raster
end Terrain
