import Terrain.Random.Draw
import Terrain.Noise.Gradient

/-! Fractal noise: octaves of gradient noise, each finer and fainter than the one before. -/
namespace Terrain.Noise

/-- How octaves are formed and summed. -/
inductive Flavour
  /-- Plain sums of octaves. -/
  | perlin
  /-- Octaves folded at zero into rounded billows. -/
  | billow
  /-- Octaves folded into ridges, each damped where the one before it was low. -/
  | ridged
  deriving DecidableEq

structure Settings where
  frequency : Float := 0.021
  lacunarity : Float := 2
  persistence : Float := 0.5
  octaves : Nat := 6
  seed : Seed := 0

/-- A source of noise over the plane. -/
abbrev Source := Float → Float → Sampled Float

/-- A noise field with the tables of its octaves made ready. -/
structure Fractal where
  flavour : Flavour
  settings : Settings
  tables : List Permutation
  scale : Float

/-- A power, by repeated squaring from the lowest binary digit up. -/
def power (base : Float) (n : Nat) : Float :=
  go base n 1
where
  go (square : Float) (n : Nat) (result : Float) : Float :=
    let result := if n % 2 = 1 then result * square else result
    if _h : n / 2 = 0 then result else go (square * square) (n / 2) result
  termination_by n

/-- The factor that brings the sum of plain octaves back to the unit interval. -/
def octaveScale (persistence : Float) (octaves : Nat) : Float :=
  1 / (List.range octaves).foldl (fun sum i => sum + power persistence (i + 1)) 0

/-- The factor that brings the sum of ridged octaves, each at its height, to two. -/
def ridgeScale (persistence : Float) (octaves : Nat) : Float :=
  let step := fun (sum, amplitude, signal) i =>
    let amplitude := amplitude * persistence
    let weight := clamp 0 1 (signal / power 2 (i + 1))
    let signal := weight * amplitude
    (sum + signal, amplitude, signal)
  let (sum, _, _) := (List.range octaves).foldl step ((0, 1, 1) : Float × Float × Float)
  2 / (1 + sum)

namespace Settings

/-- The number of octaves in use: between one and thirty-two. -/
def octaveCount (s : Settings) : Nat := Nat.max 1 (Nat.min 32 s.octaves)

end Settings

namespace Fractal

/-- Makes a field ready; each octave has the table of its own seed. -/
def build (flavour : Flavour) (s : Settings) : Fractal where
  flavour := flavour
  settings := s
  tables := (List.range s.octaveCount).map fun i =>
    Permutation.ofSeed (s.seed.toUInt32 + UInt32.ofNat i)
  scale := match flavour with
    | .ridged => ridgeScale s.persistence s.octaveCount
    | _ => octaveScale s.persistence s.octaveCount

/-- The sum of octaves, each formed by `shape` and fainter than the one before. -/
def sum (shape : Float → Float) (s : Settings) :
    List Permutation → Float → Float → Float → Float → Sampled Float
  | [], _, _, _, total => .ok total
  | p :: rest, x, y, fading, total => do
    let v ← gradient p x y
    sum shape s rest (x * s.lacunarity) (y * s.lacunarity) (fading * s.persistence)
      (total + shape v * fading)

/-- The sum of ridged octaves, each weighted by the one before. -/
def ridges (s : Settings) :
    List Permutation → Float → Float → Float → Float → Float → Sampled Float
  | [], _, _, _, _, total => .ok total
  | p :: rest, x, y, weight, fading, total => do
    let v ← gradient p x y
    let v := 1 - v.abs
    let v := v * v * weight
    let next := clamp 0 1 (v / 2)
    let v := v * fading
    ridges s rest (x * s.lacunarity) (y * s.lacunarity) next (fading * s.persistence) (total + v)

/-- The value of a field at a point. -/
def sample (f : Fractal) (x y : Float) : Sampled Float :=
  let s := f.settings
  let x := x * s.frequency
  let y := y * s.frequency
  match f.flavour with
  | .perlin => (sum id s f.tables x y s.persistence 0).map (· * f.scale)
  | .billow => (sum (fun v => 2 * v.abs - 1) s f.tables x y s.persistence 0).map (· * f.scale)
  | .ridged => (ridges s f.tables x y 1 1 0).map (· * f.scale - 1)

end Fractal
end Terrain.Noise
