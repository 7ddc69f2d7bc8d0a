import Terrain.Noise.Permutation

/-! Gradient noise over the integer lattice, in double precision. -/
namespace Terrain

/-- Why a grid has no value at a point. -/
inductive SampleError
  /-- A lattice coordinate is not a number or lies beyond the signed integers of 64 bits. -/
  | offLattice
  deriving DecidableEq

/-- A value sampled at a point, or the reason why there is none. -/
abbrev Sampled (α : Type) := Except SampleError α

namespace Noise

/-- The lattice corner below a coordinate. A coordinate that is not positive has the corner
below its integer part, also where it is an integer itself. -/
def corner (c : Float) : Sampled Int64 :=
  if -9223372036854775808 ≤ c && c < 9223372036854775808 then
    if 0 < c then .ok c.toInt64 else .ok (c.toInt64 - 1)
  else .error .offLattice

/-- The slope along the gradient that a hash picks, at an offset from its corner. -/
def slope (hash : UInt8) (x y : Float) : Float :=
  match hash &&& 3 with
  | 0 => x + y
  | 1 => -x + y
  | 2 => x - y
  | _ => -x - y

/-- The nearest number of an interval; what is not a number stays so. -/
def clamp (lo hi v : Float) : Float :=
  if v < lo then lo else if hi < v then hi else v

/-- The curve along which corners are blended: flat to the second order at both ends. -/
def fade (v : Float) : Float :=
  let v := clamp 0 1 v
  v * v * v * (v * (v * 6 - 15) + 10)

def blend (a b t : Float) : Float := b * t + a * (1 - t)

/-- Stretches the blended slopes to the unit interval. -/
def stretch : Float := 2 / Float.sqrt 2

/-- The noise of a table at a point, between minus one and one. -/
def gradient (p : Permutation) (x y : Float) : Sampled Float := do
  let cx ← corner x
  let cy ← corner y
  let dx := x - cx.toFloat
  let dy := y - cy.toFloat
  let g00 := slope (p.hash cx cy) dx dy
  let g01 := slope (p.hash cx (cy + 1)) dx (dy - 1)
  let g10 := slope (p.hash (cx + 1) cy) (dx - 1) dy
  let g11 := slope (p.hash (cx + 1) (cy + 1)) (dx - 1) (dy - 1)
  let sx := fade dx
  let sy := fade dy
  .ok (clamp (-1) 1 (blend (blend g00 g01 sy) (blend g10 g11 sy) sx * stretch))

end Noise
end Terrain
