import Terrain.Grid.Basic

/-! Distance fields with an extent of their own in each of the four directions. -/
namespace Terrain

/-- Distances from an origin, measured by the extent on the side where the point lies. -/
structure SpanDistance where
  bias : Scalar := 0
  origin : Point := Point.origin
  spanEast : Scalar := 0
  spanWest : Scalar := 0
  spanSouth : Scalar := 0
  spanNorth : Scalar := 0
  /-- Whether the distance is the length of the two offsets, rather than their sum. -/
  circular : Bool := false
  deriving BEq

namespace SpanDistance

/-- The offset along an axis over the span on its side, and that span. A span of zero counts as
no distance at all. -/
def along (offset positive negative : Scalar) : Scalar × Scalar :=
  let span := if 0 ≤ offset then positive else negative
  if span == 0 then (0, span) else (offset.abs / span, span)

/-- The distance at a point, with the bias. The circular form is negated where one of the two
spans in use is negative. -/
def distance (f : SpanDistance) (p : Point) : Scalar :=
  let d := p - f.origin
  let (x, spanX) := along d.x f.spanEast f.spanWest
  let (y, spanY) := along d.y f.spanSouth f.spanNorth
  if f.circular then
    let length := Float32.sqrt (x * x + y * y)
    if spanX < 0 || spanY < 0 then f.bias - length else f.bias + length
  else f.bias + x + y

def grid (f : SpanDistance) : ValueGrid := Grid.ofFunction f.distance

end SpanDistance
end Terrain
