import Terrain.Graph.Port
import Terrain.Grid.Span
import Terrain.Tile

/-! What a node does, and the ports that follow from it. -/
namespace Terrain

/-- An interval of numbers that includes its ends. -/
structure Range where
  min : Scalar := -Scalar.infinity
  max : Scalar := Scalar.infinity
  deriving BEq

def Range.contains (r : Range) (v : Scalar) : Bool := r.min ≤ v && v ≤ r.max

/-- What a graph says about itself. -/
structure Manifest where
  id : String := ""
  displayName : String := ""
  isCustom : Bool := false
  revision : Nat := 0
  deriving BEq

/-- What a world tile has to be like for the graph to be used on it. The host does the
matching; an empty list of topologies allows every one. -/
structure TileRequirements where
  topologies : List Topology := []
  leastHilliness : Hilliness := .flat
  greatestHilliness : Hilliness := .impassable
  elevation : Range := {}
  temperature : Range := {}
  rainfall : Range := {}
  swampiness : Range := {}
  mapSize : Range := {}
  riverCoverage : Range := {}
  roadCoverage : Range := {}
  allowSettlements : Bool := true
  allowSites : Bool := true
  deriving BEq

/-- A table from tokens to numbers. -/
structure TokenTable where
  kind : TokenKind
  entries : List (Token × Scalar) := []
  /-- The number of an absent token, and of one that the table does not list. -/
  fallback : Scalar := 0
  deriving BEq

/-- The number that a table gives a token: that of the first entry for it. -/
def TokenTable.look (t : TokenTable) (token : Option Token) : Scalar :=
  (token.bind fun k => (t.entries.find? (·.1 = k)).map (·.2)).getD t.fallback

/-- The parameters of a noise node, with the factor and bias that its noise is mapped by. -/
structure NoiseParams where
  flavour : Noise.Flavour := .perlin
  frequency : Float := 0.021
  lacunarity : Float := 2
  persistence : Float := 0.5
  octaves : Nat := 6
  scale : Scalar := 0.5
  bias : Scalar := 0.5
  deriving BEq

/-- The parameters of a linear map that is cut off to an interval. -/
structure LinearParams where
  scale : Scalar := 1
  bias : Scalar := 0
  min : Scalar := -Scalar.infinity
  max : Scalar := Scalar.infinity
  deriving BEq

/-- Whether an operator folds numbers or grids of numbers. -/
inductive OperatorTarget
  | value
  | valueGrid
  deriving DecidableEq

def OperatorTarget.portType : OperatorTarget → PortType
  | value => .value
  | valueGrid => .valueGrid

/-- The parameters of an operator node. -/
structure OperatorParams where
  target : OperatorTarget := .valueGrid
  operation : Operation := .add
  /-- The probability with which an input beyond the first takes part. -/
  chance : Scalar := 1
  deriving BEq

/-- The parameters of a select node. The thresholds are one fewer than the options and
ascending; the caller sees to both. -/
structure SelectParams where
  axis : PortType
  options : PortType
  thresholds : List Scalar := []
  deriving BEq

/-- The type of what a select node yields: a grid where its axis or its options are grids. -/
def SelectParams.resultType (p : SelectParams) : PortType :=
  if p.axis.isGrid then p.options.asGrid else p.options

/-- What a finished graph offers to the host. -/
inductive Channel
  | elevation
  | fertility
  | waterFlow
  | terrain
  | biome
  | roof
  deriving DecidableEq

namespace Channel

def all : List Channel := [elevation, fertility, waterFlow, terrain, biome, roof]

/-- The type of the input of a channel's output node. -/
def portType : Channel → PortType
  | elevation | fertility | waterFlow => .valueGrid
  | terrain => .tokenGrid .terrain
  | biome => .tokenGrid .biome
  | roof => .tokenGrid .roof

def name : Channel → String
  | elevation => "Elevation"
  | fertility => "Fertility"
  | waterFlow => "WaterFlow"
  | terrain => "Terrain"
  | biome => "Biome"
  | roof => "Roof"

end Channel

inductive Role
  | manifest
  | tileRequirements
  deriving DecidableEq

def Role.label : Role → String
  | manifest => "manifest"
  | tileRequirements => "tile requirements"

inductive Kind
  | manifest (manifest : Manifest)
  | tileRequirements (requirements : TileRequirements)
  | worldTile
  | constValue (value : Scalar)
  | randomValue (min max : Scalar)
  | constToken (kind : TokenKind) (token : Option Token)
  | tokenToValue (table : TokenTable)
  | gridFromValue
  | gridNoise (params : NoiseParams)
  | gridSpanDistance (field : SpanDistance)
  | gridRotate (pivot : Point)
  | gridTransform (translate scale : Point)
  | gridLinear (params : LinearParams)
  | gridInvert
  | gridLerp
  | operator (params : OperatorParams)
  | select (params : SelectParams)
  | output (channel : Channel)
  deriving BEq

/-- The ports that a kind declares. -/
structure Layout where
  inputs : List PortDecl := []
  outputs : List PortDecl := []
  dynamic : Option DynamicDecl := none

/-- The types of the ports of a layout. -/
structure Signature where
  inputs : List PortType
  outputs : List PortType
  dynamic : Option PortType
  deriving DecidableEq

namespace Kind

def name : Kind → String
  | manifest _ => "Manifest"
  | tileRequirements _ => "TileRequirements"
  | worldTile => "WorldTile"
  | constValue _ => "ConstValue"
  | randomValue _ _ => "RandomValue"
  | constToken _ _ => "ConstToken"
  | tokenToValue _ => "TokenToValue"
  | gridFromValue => "GridFromValue"
  | gridNoise _ => "GridNoise"
  | gridSpanDistance _ => "GridSpanDistance"
  | gridRotate _ => "GridRotate"
  | gridTransform _ _ => "GridTransform"
  | gridLinear _ => "GridLinear"
  | gridInvert => "GridInvert"
  | gridLerp => "GridLerp"
  | operator _ => "Operator"
  | select _ => "Select"
  | output _ => "Output"

def role? : Kind → Option Role
  | manifest _ => some .manifest
  | tileRequirements _ => some .tileRequirements
  | _ => none

/-- The type of the output that shows a field of the world tile. -/
def fieldType (f : TileField) : PortType :=
  match f.signal with
  | .token => .token .biome
  | .number => .value

def layout : Kind → Layout
  | manifest _ | tileRequirements _ => {}
  | worldTile => { outputs := TileField.all.map fun f => .output f.name (fieldType f) }
  | constValue _ | randomValue _ _ => { outputs := [.output "value" .value] }
  | constToken k _ => { outputs := [.output "token" (.token k)] }
  | tokenToValue t =>
    { inputs := [.optional "token" (.token t.kind) (.token none)]
      outputs := [.output "value" .value] }
  | gridFromValue =>
    { inputs := [.optional "value" .value (.number 0)]
      outputs := [.output "grid" .valueGrid] }
  | gridNoise _ | gridSpanDistance _ => { outputs := [.output "grid" .valueGrid] }
  | gridRotate _ =>
    { inputs := [.needed "input" .valueGrid, .optional "angle" .value (.number 0)]
      outputs := [.output "grid" .valueGrid] }
  | gridTransform _ _ | gridLinear _ | gridInvert =>
    { inputs := [.needed "input" .valueGrid]
      outputs := [.output "grid" .valueGrid] }
  | gridLerp =>
    { inputs :=
        [.optional "a" .valueGrid (.number 0), .optional "b" .valueGrid (.number 1),
          .optional "t" .valueGrid (.number 0.5)]
      outputs := [.output "grid" .valueGrid] }
  | operator p =>
    { outputs := [.output "result" p.target.portType]
      dynamic := some ⟨"input", p.target.portType, 2⟩ }
  | select p =>
    { inputs := [.optional "axis" p.axis (.number 0)]
      outputs := [.output "result" p.resultType]
      dynamic := some ⟨"option", p.options, 2⟩ }
  | output c => { inputs := [⟨"input", c.portType, false, none⟩] }

/-- The port types of a kind. An edit of a node's kind has to keep them. -/
def signature (k : Kind) : Signature :=
  let l := k.layout
  ⟨l.inputs.map (·.type), l.outputs.map (·.type), l.dynamic.map (·.type)⟩

end Kind
end Terrain
