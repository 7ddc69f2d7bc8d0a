import Terrain.Noise.Fractal
import Terrain.Operation
import Terrain.Point
import Terrain.Signal
import Terrain.Threshold

/-! Grids: pure functions of a point, and the ways to combine them. Sampling a grid changes
nothing, so every sample of it at one point is the same. -/
namespace Terrain

/-- A function from points to values. -/
@[ext]
structure Grid (α : Type) where
  valueAt : Point → Sampled α

abbrev ValueGrid := Grid Scalar

/-- A grid of tokens; a cell without one keeps the host's default. -/
abbrev TokenGrid := Grid (Option Token)

namespace Grid

def const {α : Type} (v : α) : Grid α := ⟨fun _ => .ok v⟩

/-- The values of a function that has one everywhere. -/
def ofFunction {α : Type} (f : Point → α) : Grid α := ⟨fun p => .ok (f p)⟩

def add (a b : ValueGrid) : ValueGrid := ⟨fun p => return (← a.valueAt p) + (← b.valueAt p)⟩

def multiply (a b : ValueGrid) : ValueGrid := ⟨fun p => return (← a.valueAt p) * (← b.valueAt p)⟩

def minimum (a b : ValueGrid) : ValueGrid :=
  ⟨fun p => return Scalar.min (← a.valueAt p) (← b.valueAt p)⟩

def maximum (a b : ValueGrid) : ValueGrid :=
  ⟨fun p => return Scalar.max (← a.valueAt p) (← b.valueAt p)⟩

def smoothMinimum (a b : ValueGrid) (smoothness : Scalar) : ValueGrid :=
  ⟨fun p => return Operation.smoothMinimum (← a.valueAt p) (← b.valueAt p) smoothness⟩

def smoothMaximum (a b : ValueGrid) (smoothness : Scalar) : ValueGrid :=
  ⟨fun p => return Operation.smoothMaximum (← a.valueAt p) (← b.valueAt p) smoothness⟩

/-- The grid of an operation on two grids. -/
def combine (operation : Operation) (a b : ValueGrid) : ValueGrid :=
  match operation with
  | .add => a.add b
  | .multiply => a.multiply b
  | .min => a.minimum b
  | .max => a.maximum b
  | .smoothMin smoothness => a.smoothMinimum b smoothness
  | .smoothMax smoothness => a.smoothMaximum b smoothness

/-- Each of the combined grids applies its operation at every point. -/
theorem valueAt_combine (operation : Operation) (a b : ValueGrid) (p : Point) :
    (combine operation a b).valueAt p = do
      let x ← a.valueAt p
      let y ← b.valueAt p
      return operation.apply x y := by
  cases operation <;> rfl

/-- A grid times a factor, plus a bias. -/
def scaleBias (input : ValueGrid) (scale bias : Scalar) : ValueGrid :=
  ⟨fun p => return (← input.valueAt p) * scale + bias⟩

/-- A grid cut off above and then below, so that the lower bound wins where the two cross. -/
def clamp (input : ValueGrid) (min max : Scalar) : ValueGrid :=
  ⟨fun p => return Scalar.max (Scalar.min (← input.valueAt p) max) min⟩

/-- One minus a grid. -/
def invert (input : ValueGrid) : ValueGrid :=
  ⟨fun p => return 1 - (← input.valueAt p)⟩

/-- Linear interpolation from `a` to `b`, by a weight that is cut off to the unit interval. -/
def lerp (a b t : ValueGrid) : ValueGrid :=
  ⟨fun p => do
    let weight := Scalar.clampUnit (← t.valueAt p)
    let x ← a.valueAt p
    return x + ((← b.valueAt p) - x) * weight⟩

/-- Turns the plane about a pivot before sampling. -/
def rotate {α : Type} (input : Grid α) (pivot : Point) (degrees : Scalar) : Grid α :=
  let direction := Point.direction degrees
  ⟨fun p => input.valueAt (pivot + direction.turn (p - pivot))⟩

/-- Scales the plane and then shifts it before sampling. -/
def transform {α : Type} (input : Grid α) (translate scale : Point) : Grid α :=
  ⟨fun p => input.valueAt (p * scale + translate)⟩

/-- At each point the option that the axis chooses there, after `post` of its value and index.
Only the chosen option is sampled. Without options the value is `blank`. -/
def selectThen {α : Type} (post : α → Nat → α) (blank : α) (axis : ValueGrid)
    (thresholds : List Scalar) (options : List (Grid α)) : Grid α :=
  ⟨fun p => do
    let v ← axis.valueAt p
    match selectIndex v thresholds options.length with
    | none => return blank
    | some i =>
      match options[i]? with
      | none => return blank
      | some option => return post (← option.valueAt p) i⟩

/-- At each point the option that the axis chooses there. -/
def select {α : Type} (blank : α) (axis : ValueGrid) (thresholds : List Scalar)
    (options : List (Grid α)) : Grid α :=
  selectThen (fun v _ => v) blank axis thresholds options

/-- The values of a noise source, rounded to single precision. -/
def noise (source : Noise.Source) : ValueGrid :=
  ⟨fun p => (source p.x.toFloat p.y.toFloat).map Float.toFloat32⟩

def fractal (field : Noise.Fractal) : ValueGrid := noise field.sample

end Grid
end Terrain
