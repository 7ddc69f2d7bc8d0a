import Terrain.Scalar
import Terrain.Random.KeyStream

/-! Seeds, and the draws that suppliers and folds take from the stream of a seed. A stream is
read by position, so whoever draws keeps a count of the draws taken and nothing else. -/
namespace Terrain

/-- Where a stream of draws comes from. -/
abbrev Seed := Int32

namespace Seed

/-- The seed of a node's streams within a graph. -/
def combined (node graph : Seed) : Seed := node ^^^ graph

/-- The seed that a new node is given: its index, scrambled. -/
def ofIndex (index : Nat) : Seed :=
  let z := UInt64.ofNat index + 0x9E3779B97F4A7C15
  let z := (z ^^^ (z >>> 30)) * 0xBF58476D1CE4E5B9
  let z := (z ^^^ (z >>> 27)) * 0x94D049BB133111EB
  (z ^^^ (z >>> 31)).toUInt32.toInt32

/-- The draw of a seed's stream at a position. -/
def draw (seed : Seed) (position : Nat) : UInt32 :=
  Random.keyStream (Random.Key.ofSeed seed.toUInt32) position

/-- Two draws from a position on, the earlier one as the low half. -/
def drawPair (seed : Seed) (position : Nat) : UInt64 :=
  (seed.draw (position + 1)).toUInt64 <<< 32 ||| (seed.draw position).toUInt64

end Seed

namespace Random

/-- A draw as a number of `[0, 1]`: the word over `2 ^ 32`, which may round up to one. -/
def unit (word : UInt32) : Scalar := word.toFloat32 / 4294967296

/-- Whether a coin that comes up with probability `chance` does so for a draw. -/
def comesUp (chance : Scalar) (word : UInt32) : Bool :=
  1 ≤ chance || (0 < chance && unit word < chance)

/-- The coin flips of a fold: the flip of a layer is the draw at the layer's position. -/
def flip (seed : Seed) (chance : Scalar) (position : Nat) : Bool :=
  comesUp chance (seed.draw position)

end Random
end Terrain
