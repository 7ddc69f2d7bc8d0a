/-! The shuffled table of a noise seed, through which lattice corners are hashed. -/
namespace Terrain.Noise

/-- The state of the shift register that shuffles a table. -/
structure ShiftRegister where
  x : UInt32
  y : UInt32
  z : UInt32
  w : UInt32

namespace ShiftRegister

def ofSeed (seed : UInt32) : ShiftRegister := ⟨1, seed, seed, seed⟩

/-- One step of the register; the new last word is its output. -/
def step (r : ShiftRegister) : ShiftRegister :=
  let t := r.x ^^^ (r.x <<< 11)
  ⟨r.y, r.z, r.w, r.w ^^^ (r.w >>> 19) ^^^ (t ^^^ (t >>> 8))⟩

/-- The number of zero bits above the highest one bit of a number below `2 ^ 32`. -/
def leadingZeros (n : Nat) : Nat := if n = 0 then 32 else 31 - n.log2

/-- A number below `bound`, all equally likely. An output whose product with the bound has its
low half beyond the last whole multiple is thrown away; at least half of all outputs are kept,
so the tries allowed do not run out. -/
def below (bound : Nat) : Nat → ShiftRegister → Nat × ShiftRegister
  | 0, r => (0, r)
  | tries + 1, r =>
    let r := r.step
    let zone := bound <<< leadingZeros bound - 1
    let product := r.w.toNat * bound
    if product % 2 ^ 32 ≤ zone then (product / 2 ^ 32, r) else below bound tries r

end ShiftRegister

/-- A table of the numbers below 256 in shuffled order. -/
structure Permutation where
  table : Array UInt8

namespace Permutation

/-- The entry at an index, which is read modulo the size of the table. -/
def entry (p : Permutation) (i : Nat) : UInt8 := p.table.getD (i % 256) 0

/-- Exchanges the entries from the last to the second, each with one that is not after it. -/
def shuffle : Nat → ShiftRegister → Array UInt8 → Array UInt8
  | 0, _, table => table
  | i + 1, r, table =>
    let (j, r) := r.below (i + 2) 1000
    shuffle i r (table.swapIfInBounds (i + 1) j)

def ofSeed (seed : UInt32) : Permutation :=
  ⟨shuffle 255 (ShiftRegister.ofSeed seed) (Array.ofFn fun i : Fin 256 => UInt8.ofNat i)⟩

def hash (p : Permutation) (x y : Int64) : UInt8 :=
  let a := p.entry (x.toUInt64 &&& 255).toNat
  p.entry (a.toUInt64 ^^^ (y.toUInt64 &&& 255)).toNat

end Permutation
end Terrain.Noise
