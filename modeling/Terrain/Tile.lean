import Terrain.Signal

/-! The world tile that a graph is computed for, as the host describes it. -/
namespace Terrain

/-- How hilly a tile is, from undefined to impassable. -/
inductive Hilliness
  | undefined
  | flat
  | smallHills
  | largeHills
  | mountainous
  | impassable
  deriving DecidableEq

namespace Hilliness

def value : Hilliness → Scalar
  | undefined => 0
  | flat => 1
  | smallHills => 2
  | largeHills => 3
  | mountainous => 4
  | impassable => 5

end Hilliness

/-- A side of the map. -/
inductive Side
  | north
  | east
  | south
  | west
  deriving DecidableEq

namespace Side

def all : List Side := [north, east, south, west]

def opposite : Side → Side
  | north => south
  | east => west
  | south => north
  | west => east

end Side

/-- The sides of a tile that border an ocean or a large lake. -/
structure Coast where
  north : Bool := false
  east : Bool := false
  south : Bool := false
  west : Bool := false
  deriving DecidableEq

namespace Coast

def has (c : Coast) : Side → Bool
  | .north => c.north
  | .east => c.east
  | .south => c.south
  | .west => c.west

def count (c : Coast) : Nat := Side.all.countP c.has

end Coast

/-- How the coast lies about a tile. -/
inductive Topology
  | inland
  | coastOneSide
  | coastTwoSides
  | coastLandbridge
  | coastThreeSides
  | coastAllSides
  deriving DecidableEq

/-- The layout that a coast gives: of two coastal sides, opposite ones make a land bridge. -/
def Coast.topology (c : Coast) : Topology :=
  match c.count with
  | 0 => .inland
  | 1 => .coastOneSide
  | 2 =>
    if Side.all.any fun s => c.has s && c.has s.opposite then .coastLandbridge
    else .coastTwoSides
  | 3 => .coastThreeSides
  | _ => .coastAllSides

/-- A river or a road across a tile: its direction in degrees, and its width. -/
structure LinearFeature where
  angle : Scalar
  width : Scalar

/-- A world tile. The fields that no node reads are for the host, which matches tiles against
the requirements of a graph. -/
structure WorldTile where
  biome : Option Token := none
  hilliness : Hilliness := .flat
  elevation : Scalar := 0
  temperature : Scalar := 15
  rainfall : Scalar := 1000
  swampiness : Scalar := 0
  mapSize : UInt32 := 250
  river : Option LinearFeature := none
  roads : List LinearFeature := []
  coast : Coast := {}
  hasSettlement : Bool := false
  hasSite : Bool := false

namespace WorldTile

/-- The widest road, the last one of several that are equally wide. -/
def mainRoad (t : WorldTile) : Option LinearFeature :=
  t.roads.foldl (fun best road =>
    match best with
    | none => some road
    | some b => if b.width.orderKey ≤ road.width.orderKey then some road else some b) none

end WorldTile

/-- What a world tile shows to a graph, in the order of the tile node's outputs. -/
inductive TileField
  | biome
  | hilliness
  | elevation
  | temperature
  | rainfall
  | swampiness
  | mapSize
  | riverWidth
  | riverAngle
  | roadWidth
  | roadAngle
  | coast (side : Side)
  deriving DecidableEq

namespace TileField

def all : List TileField :=
  [biome, hilliness, elevation, temperature, rainfall, swampiness, mapSize, riverWidth,
    riverAngle, roadWidth, roadAngle, coast .north, coast .east, coast .south, coast .west]

def name : TileField → String
  | biome => "biome"
  | hilliness => "hilliness"
  | elevation => "elevation"
  | temperature => "temperature"
  | rainfall => "rainfall"
  | swampiness => "swampiness"
  | mapSize => "map_size"
  | riverWidth => "river_width"
  | riverAngle => "river_angle"
  | roadWidth => "road_width"
  | roadAngle => "road_angle"
  | coast .north => "coast_north"
  | coast .east => "coast_east"
  | coast .south => "coast_south"
  | coast .west => "coast_west"

/-- The sort of value that a field holds: the biome is a token, the rest are numbers. -/
def signal : TileField → Signal
  | biome => .token
  | _ => .number

/-- The value of a field on a tile; a missing river or road has width and angle zero. -/
def value (t : WorldTile) : (f : TileField) → f.signal.Carrier
  | biome => t.biome
  | hilliness => t.hilliness.value
  | elevation => t.elevation
  | temperature => t.temperature
  | rainfall => t.rainfall
  | swampiness => t.swampiness
  | mapSize => t.mapSize.toFloat32
  | riverWidth => t.river.elim (0 : Scalar) (·.width)
  | riverAngle => t.river.elim (0 : Scalar) (·.angle)
  | roadWidth => t.mainRoad.elim (0 : Scalar) (·.width)
  | roadAngle => t.mainRoad.elim (0 : Scalar) (·.angle)
  | coast side => if t.coast.has side then (1 : Scalar) else (0 : Scalar)

end TileField
end Terrain
