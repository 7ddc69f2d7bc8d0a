import Terrain.Error
import Terrain.Point

/-! The cells of a host map, and how they lie in the plane that graphs are computed in. -/
namespace Terrain

/-- A map of the host's. -/
structure HostMap where
  /-- The number of cells along `x`. -/
  width : UInt64 := 250
  /-- The number of cells along `y`. -/
  height : UInt64 := 250
  /-- What the whole map spans in the plane along each axis. -/
  fullSize : Scalar := 250

structure MapCell where
  column : UInt64
  row : UInt64
  deriving DecidableEq

namespace HostMap

/-- Refuses a map without cells, and one whose span is not finite and positive. -/
def validate (m : HostMap) : Except GraphError Unit :=
  if m.width = 0 || m.height = 0 then .error (.invalidMap .noCells)
  else if m.fullSize.isFinite && 0 < m.fullSize then .ok ()
  else .error (.invalidMap .spanNotPositive)

def length (m : HostMap) : UInt64 := m.width * m.height

def isEmpty (m : HostMap) : Bool := m.length = 0

def has (m : HostMap) (c : MapCell) : Bool := c.column < m.width && c.row < m.height

/-- The extent of one cell in the plane. -/
def cellSize (m : HostMap) : Point :=
  ⟨m.fullSize / Scalar.ofCount m.width, m.fullSize / Scalar.ofCount m.height⟩

def center (m : HostMap) (c : MapCell) : Point :=
  ⟨Scalar.ofCount c.column + 0.5, Scalar.ofCount c.row + 0.5⟩ * m.cellSize

/-- The cell that a point lies in, if it lies on the map. -/
def cellAt (m : HostMap) (p : Point) : Option MapCell :=
  let q := p / m.cellSize
  let x := Scalar.floor q.x
  let y := Scalar.floor q.y
  if x < 0 || y < 0 then none
  else
    let c : MapCell := ⟨Scalar.toCount x, Scalar.toCount y⟩
    if m.has c then some c else none

/-- The cells of a map, row by row: the one at a place has the place's remainder by the width as
its column and the quotient as its row. -/
def cells (m : HostMap) : List MapCell :=
  (List.range (m.width.toNat * m.height.toNat)).map fun place =>
    ⟨UInt64.ofNat (place % m.width.toNat), UInt64.ofNat (place / m.width.toNat)⟩

end HostMap
end Terrain
