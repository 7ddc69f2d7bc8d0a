/-! Single precision numbers, with the rules that fix a result where arithmetic alone does not:
which operand a minimum keeps beside a number that is not one, how a number becomes a cell
index, and the total order of numbers. -/
namespace Terrain

/-- The numbers that flow through suppliers and grids. -/
abbrev Scalar := Float32

namespace Scalar

/-- The smaller operand; the other one where an operand is not a number. -/
def min (a b : Scalar) : Scalar :=
  if a.isNaN then b else if b.isNaN then a else if b < a then b else a

/-- The larger operand; the other one where an operand is not a number. -/
def max (a b : Scalar) : Scalar :=
  if a.isNaN then b else if b.isNaN then a else if a < b then b else a

/-- The nearest number of `[0, 1]`; what is not a number stays so. -/
def clampUnit (t : Scalar) : Scalar :=
  if t < 0 then 0 else if 1 < t then 1 else t

/-- The value of a count below `2 ^ 64`, rounded to nearest. -/
def ofCount (n : UInt64) : Scalar := n.toFloat32

/-- The greatest integer that is not above `x`. A number of magnitude `2 ^ 23` or more has no
fraction to drop, and neither has an infinity. -/
def floor (x : Scalar) : Scalar :=
  if x.abs < 8388608 then
    let whole := ofCount x.abs.toUInt64
    if whole == x.abs then x else if x < 0 then -(whole + 1) else whole
  else x

/-- The integer part of `x` as a count: zero below one and where `x` is not a number, the
greatest count where `x` exceeds them all. -/
def toCount (x : Scalar) : UInt64 := x.toUInt64

/-- The place of `x` in the total order of numbers, in which the negative zero stands before
the positive one and what is not a number stands beyond the infinities. -/
def orderKey (x : Scalar) : Int :=
  let bits := x.toBits.toNat
  if bits < 0x80000000 then bits else 0x7fffffff - (bits : Int)

/-- The exponential function, computed in double precision and rounded once. -/
def exp (x : Scalar) : Scalar :=
  if x.isNaN then x else (Float.exp x.toFloat).toFloat32

/-- The logarithm of `1 + x` for `x ≥ 0`, computed in double precision and rounded once. The
quotient makes up for the digits of `x` that the sum `1 + x` loses. -/
def logOnePlus (x : Scalar) : Scalar :=
  if x.isNaN then x else
    let wide := x.toFloat
    let sum := 1 + wide
    if sum == 1 then x
    else if sum.isInf then sum.toFloat32
    else (Float.log sum * (wide / (sum - 1))).toFloat32

/-- The cosine of an angle in radians, computed in double precision and rounded once. -/
def cos (x : Scalar) : Scalar := (Float.cos x.toFloat).toFloat32

/-- The sine of an angle in radians, computed in double precision and rounded once. -/
def sin (x : Scalar) : Scalar := (Float.sin x.toFloat).toFloat32

/-- One degree in radians. -/
def radiansPerDegree : Scalar := Float32.ofBits 0x40490fdb / 180

/-- The infinity above every number. -/
def infinity : Scalar := Float32.ofBits 0x7f800000

end Scalar
end Terrain
