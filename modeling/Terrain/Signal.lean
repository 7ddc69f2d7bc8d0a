import Terrain.Scalar

/-! What suppliers and grids carry: numbers, or tokens that may be missing. -/
namespace Terrain

/-- An entry of a host catalog, known by its name alone. Tokens are routed and selected, never
interpreted. -/
structure Token where
  name : String
  deriving DecidableEq

/-- The catalog that a token belongs to. -/
inductive TokenKind
  | terrain
  | biome
  | roof
  deriving DecidableEq

namespace TokenKind

def label : TokenKind → String
  | terrain => "terrain"
  | biome => "biome"
  | roof => "roof"

def name : TokenKind → String
  | terrain => "Terrain"
  | biome => "Biome"
  | roof => "Roof"

end TokenKind

/-- The two sorts of values that are supplied and sampled. -/
inductive Signal
  | number
  | token
  deriving DecidableEq

namespace Signal

/-- The values of a sort. A token may be absent, which leaves the host's default in place. -/
abbrev Carrier : Signal → Type
  | number => Scalar
  | token => Option Token

/-- The value that stands in where there is none: zero, or no token. -/
def blank : (s : Signal) → s.Carrier
  | number => (0 : Scalar)
  | token => (none : Option Token)

end Signal
end Terrain
