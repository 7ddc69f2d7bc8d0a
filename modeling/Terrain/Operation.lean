import Terrain.Scalar

/-! The binary operations with which operator nodes fold their inputs, scalar and grid alike. -/
namespace Terrain

/-- A binary operation on numbers. The smooth kinds blend their operands over a range that
shrinks as the smoothness grows. -/
inductive Operation
  | add
  | multiply
  | min
  | max
  | smoothMin (smoothness : Scalar)
  | smoothMax (smoothness : Scalar)
  deriving BEq

namespace Operation

/-- Differentiable minimum; the plain minimum where the smoothness is not positive. The
exponent is the difference of the lesser and the greater scaled operand, so it is never
positive. -/
def smoothMinimum (a b smoothness : Scalar) : Scalar :=
  if smoothness ≤ 0 then Scalar.min a b
  else
    let lo := Scalar.min a b * smoothness
    let hi := Scalar.max a b * smoothness
    (lo - Scalar.logOnePlus (Scalar.exp (lo - hi))) / smoothness

/-- Differentiable maximum; the plain maximum where the smoothness is not positive. -/
def smoothMaximum (a b smoothness : Scalar) : Scalar :=
  if smoothness ≤ 0 then Scalar.max a b
  else
    let lo := Scalar.min a b * smoothness
    let hi := Scalar.max a b * smoothness
    (hi + Scalar.logOnePlus (Scalar.exp (lo - hi))) / smoothness

def apply : Operation → Scalar → Scalar → Scalar
  | add, a, b => a + b
  | multiply, a, b => a * b
  | min, a, b => Scalar.min a b
  | max, a, b => Scalar.max a b
  | smoothMin s, a, b => smoothMinimum a b s
  | smoothMax s, a, b => smoothMaximum a b s

/-- The result of folding no operands: one for products, zero for all else. -/
def neutral : Operation → Scalar
  | multiply => 1
  | _ => 0

def name : Operation → String
  | add => "Add"
  | multiply => "Multiply"
  | min => "Min"
  | max => "Max"
  | smoothMin _ => "SmoothMin"
  | smoothMax _ => "SmoothMax"

end Operation
end Terrain
