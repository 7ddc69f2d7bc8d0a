import Terrain.Scalar

/-! Points of the plane and the coordinate-wise arithmetic on them. -/
namespace Terrain

/-- A point, or an offset between points; `y` runs along the map's depth axis. -/
structure Point where
  x : Scalar
  y : Scalar
  deriving BEq

namespace Point

def origin : Point := ⟨0, 0⟩

def add (p q : Point) : Point := ⟨p.x + q.x, p.y + q.y⟩
def sub (p q : Point) : Point := ⟨p.x - q.x, p.y - q.y⟩
def mul (p q : Point) : Point := ⟨p.x * q.x, p.y * q.y⟩
def div (p q : Point) : Point := ⟨p.x / q.x, p.y / q.y⟩

instance : Add Point := ⟨add⟩
instance : Sub Point := ⟨sub⟩
instance : Mul Point := ⟨mul⟩
instance : Div Point := ⟨div⟩

/-- The direction at `degrees` from the `x` axis, as the point of the unit circle. -/
def direction (degrees : Scalar) : Point :=
  let angle := degrees * Scalar.radiansPerDegree
  ⟨Scalar.cos angle, Scalar.sin angle⟩

/-- The offset `d` turned by the angle of the direction `r`. -/
def turn (r d : Point) : Point := ⟨r.x * d.x - r.y * d.y, r.y * d.x + r.x * d.y⟩

end Point
end Terrain
