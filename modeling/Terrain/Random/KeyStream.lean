/-! The key stream of the ChaCha cipher with twelve rounds, as a function from positions to
words: the word at a position depends on nothing but the seed and the position. -/
namespace Terrain.Random

/-- The sixteen words on which the rounds work. -/
abbrev Block := Vector UInt32 16

/-- The eight words that a seed is spread into. -/
abbrev Key := Vector UInt32 8

namespace Block

def rotate (x n : UInt32) : UInt32 := (x <<< n) ||| (x >>> (32 - n))

/-- Mixes the words at four places. -/
def quarterRound (s : Block) (a b c d : Fin 16) : Block :=
  let s := s.set a (s[a] + s[b])
  let s := s.set d (rotate (s[d] ^^^ s[a]) 16)
  let s := s.set c (s[c] + s[d])
  let s := s.set b (rotate (s[b] ^^^ s[c]) 12)
  let s := s.set a (s[a] + s[b])
  let s := s.set d (rotate (s[d] ^^^ s[a]) 8)
  let s := s.set c (s[c] + s[d])
  s.set b (rotate (s[b] ^^^ s[c]) 7)

/-- A round along the columns of the square, then one along its diagonals. -/
def doubleRound (s : Block) : Block :=
  let s := s.quarterRound 0 4 8 12
  let s := s.quarterRound 1 5 9 13
  let s := s.quarterRound 2 6 10 14
  let s := s.quarterRound 3 7 11 15
  let s := s.quarterRound 0 5 10 15
  let s := s.quarterRound 1 6 11 12
  let s := s.quarterRound 2 7 8 13
  s.quarterRound 3 4 9 14

/-- The block before the rounds: four constants, the key, the block counter of two words and a
nonce of zero. -/
def start (key : Key) (counter : UInt64) : Block :=
  #v[0x61707865, 0x3320646e, 0x79622d32, 0x6b206574,
    key[0], key[1], key[2], key[3], key[4], key[5], key[6], key[7],
    counter.toUInt32, (counter >>> 32).toUInt32, 0, 0]

/-- The block of the key stream at a counter: twelve rounds, then the sum with the start. -/
def keyed (key : Key) (counter : UInt64) : Block :=
  let first := start key counter
  let mixed := Nat.repeat doubleRound 6 first
  Vector.zipWith (· + ·) mixed first

end Block

namespace Key

/-- One step of the generator that spreads a seed: its next state and the word it yields. -/
def spread (state : UInt64) : UInt64 × UInt32 :=
  let next := state * 0x5851F42D4C957F2D + 0xA17654E46FBE17F3
  let word := (((next >>> 18) ^^^ next) >>> 27).toUInt32
  let turn := (next >>> 59).toUInt32
  (next, (word >>> turn) ||| (word <<< ((32 - turn) % 32)))

def ofSeed (seed : UInt32) : Key :=
  let (s, w0) := spread seed.toUInt64
  let (s, w1) := spread s
  let (s, w2) := spread s
  let (s, w3) := spread s
  let (s, w4) := spread s
  let (s, w5) := spread s
  let (s, w6) := spread s
  let (_, w7) := spread s
  #v[w0, w1, w2, w3, w4, w5, w6, w7]

end Key

def keyStream (key : Key) (position : Nat) : UInt32 :=
  have _inBlock : position % 16 < 16 := Nat.mod_lt _ (by decide)
  (Block.keyed key (UInt64.ofNat (position / 16)))[position % 16]

end Terrain.Random
