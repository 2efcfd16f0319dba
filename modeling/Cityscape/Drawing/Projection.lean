import Cityscape.Coordinate

/-!
# Projection to pixels

The map is a grid of square raster tiles in Mercator's projection. Pixels count from a tile of choice,
and the vertical axis points up from the bottom of the map.
-/

namespace Cityscape

/-- A place on the drawn map. -/
structure Pixel where
  x : Float
  y : Float
  deriving Repr

/-- Where a longitude and latitude are drawn. Specification, section 6. -/
abbrev Projection := Float → Float → Pixel

/--
A grid of tiles: their size, the zoom, the tile at the origin and the height of the map. Specification, section
10.4.
-/
structure TileGrid where
  tileSize : UInt32 := 512
  zoom : UInt32 := 16
  originX : Int64 := 0
  originY : Int64 := 0
  mapHeight : Float := 1536.0
  deriving Repr, BEq

/-- How much a zoom enlarges; a zoom with its top bit set is negative and shrinks by the reciprocal. -/
def zoomScale (zoom : UInt32) : Float :=
  let level := zoom.toInt32.toInt
  if level < 0 then 1.0 / Decimal.powerOfTwo level.natAbs else Decimal.powerOfTwo level.natAbs

/-- Keeps a number within bounds; one that is not a number stays so. -/
def clamp (low high value : Float) : Float :=
  if value < low then low else if high < value then high else value

namespace TileGrid

/-- The horizontal position at zoom zero. -/
def worldX (grid : TileGrid) (longitude : Float) : Float :=
  grid.tileSize.toFloat * (0.5 + longitude / 360.0)

/-- The vertical position at zoom zero, kept away from the poles. -/
def worldY (grid : TileGrid) (latitude : Float) : Float :=
  let s := clamp (-0.9999) 0.9999 (radians latitude).sin
  grid.tileSize.toFloat * (0.5 - ((1.0 + s) / (1.0 - s)).log / (4.0 * pi))

/-- The pixel of a place. Specification, section 10.8. -/
def project (grid : TileGrid) : Projection := fun longitude latitude ↦
  let scale := zoomScale grid.zoom
  let size := grid.tileSize.toFloat
  let x := (grid.worldX longitude * scale).floor - grid.originX.toFloat * size
  let y := (grid.worldY latitude * scale).floor - grid.originY.toFloat * size
  ⟨x, grid.mapHeight - (y - 1.0)⟩

end TileGrid

end Cityscape
