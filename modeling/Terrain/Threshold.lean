import Terrain.Scalar

/-! Choosing one of several options by where a number falls among thresholds. -/
namespace Terrain

/-- The option chosen for `value` among `options` many: the first whose threshold exceeds the
value, and the last option where none does. There is no choice without options. Only the
thresholds that stand before the last option take part. -/
def selectIndex (value : Scalar) (thresholds : List Scalar) (options : Nat) : Option Nat :=
  match options with
  | 0 => none
  | last + 1 => some (((thresholds.take last).findIdx? (value < ·)).getD last)

end Terrain
