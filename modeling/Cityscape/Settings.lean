import Cityscape.Drawing.Projection
import Cityscape.Files
import Cityscape.Journal
import Cityscape.Script
import Cityscape.Yaml.Text
import Cityscape.Yaml.Typed

/-!
# Settings

What a user may choose: where documents go, what scripts are filled in with, how the map is projected and how long
the journal is. Settings are a YAML mapping in which every entry may be missing.
-/

namespace Cityscape

/-- The choices of a user. Specification, section 10.4. -/
structure Settings where
  /-- Where a document goes when nothing else is said. -/
  output : String := "city.geojson"
  script : Script.Options := {}
  projection : TileGrid := {}
  /-- The records that the journal keeps. -/
  logCapacity : UInt64 := 256
  deriving Repr

namespace Settings

/-- Whether all choices are equal; one that is not a number is equal to none, and paths are equal by their names. -/
def same (a b : Settings) : Bool :=
  Path.same a.output b.output && a.script.cityName == b.script.cityName
    && a.script.lakeRadius == b.script.lakeRadius && a.script.bendAngle == b.script.bendAngle
    && a.projection == b.projection && a.logCapacity == b.logCapacity

/-- The projection that a node of a document describes. -/
def projection? (document : Yaml.Document) (node : Yaml.Node) : Option TileGrid := do
  let entries ← document.entries? node
  let d : TileGrid := {}
  return {
    tileSize := ← Yaml.field entries "tile_size" d.tileSize fun n ↦
      (document.natural? UInt32.size n).map Nat.toUInt32
    zoom := ← Yaml.field entries "zoom" d.zoom fun n ↦ (document.natural? UInt32.size n).map Nat.toUInt32
    originX := ← Yaml.field entries "origin_tile_x" d.originX document.int64?
    originY := ← Yaml.field entries "origin_tile_y" d.originY document.int64?
    mapHeight := ← Yaml.field entries "map_height" d.mapHeight document.double? }

/-- The settings that a document describes. -/
def ofDocument? (document : Yaml.Document) : Option Settings := do
  let entries ← document.entries? document.root
  let d : Settings := {}
  return {
    output := ← Yaml.field entries "output" d.output document.string?
    script := {
      cityName := ← Yaml.field entries "decompiled_city_name" d.script.cityName document.string?
      lakeRadius := ← Yaml.field entries "decompiled_lake_radius" d.script.lakeRadius document.double?
      bendAngle := ← Yaml.field entries "decompiled_bend_angle" d.script.bendAngle document.double? }
    projection := ← Yaml.field entries "projection" d.projection (projection? document)
    logCapacity := ← Yaml.field entries "log_capacity" d.logCapacity fun n ↦
      (document.natural? UInt64.size n).map Nat.toUInt64 }

/-- Whether a character counts as white space of any kind. -/
def isWhite (c : Char) : Bool :=
  (0x09 ≤ c.toNat && c.toNat ≤ 0x0d) || c.toNat = 0x20 || c.toNat = 0x85 || c.toNat = 0xa0 ||
    c.toNat = 0x1680 || (0x2000 ≤ c.toNat && c.toNat ≤ 0x200a) || c.toNat = 0x2028 ||
    c.toNat = 0x2029 || c.toNat = 0x202f || c.toNat = 0x205f || c.toNat = 0x3000

/-- The settings that a text describes; one without a document leaves everything as it is. -/
def ofText? (text : String) : Option Settings :=
  if text.toList.all isWhite then some {}
  else do
    match ← Yaml.parse? text with
    | some document => ofDocument? document
    | none => return {}

/-- Whether a plain text would be read as something else than a string. -/
def isAmbiguous (text : String) : Bool :=
  ["", "~", "null", "Null", "NULL", "true", "True", "TRUE", "false", "False", "FALSE"].contains text
    || (Yaml.integer? text.toList).any (fun n ↦ -Int.pow 2 127 ≤ n && n < Int.pow 2 128)
    || Yaml.isZeroLed text.toList || (Yaml.double? text).isSome

/-- A string as the value of an entry. -/
def writeString (text : String) : List Char :=
  (Yaml.quotation (isAmbiguous text) text.toList).write text.toList

/-- A double as the value of an entry. -/
def writeDouble (value : Float) : List Char :=
  (Yaml.numeral.write value).toList

/-- A whole number as the value of an entry. -/
def writeInt (value : Int) : List Char :=
  (toString value).toList

/-- The text of settings, every entry written out. -/
def text (settings : Settings) : String :=
  let grid := settings.projection
  Yaml.entry "output" (writeString settings.output)
    ++ Yaml.entry "decompiled_city_name" (writeString settings.script.cityName)
    ++ Yaml.entry "decompiled_lake_radius" (writeDouble settings.script.lakeRadius)
    ++ Yaml.entry "decompiled_bend_angle" (writeDouble settings.script.bendAngle)
    ++ "projection:\n"
    ++ Yaml.entry "  tile_size" (writeInt grid.tileSize.toNat)
    ++ Yaml.entry "  zoom" (writeInt grid.zoom.toNat)
    ++ Yaml.entry "  origin_tile_x" (writeInt grid.originX.toInt)
    ++ Yaml.entry "  origin_tile_y" (writeInt grid.originY.toInt)
    ++ Yaml.entry "  map_height" (writeDouble grid.mapHeight)
    ++ Yaml.entry "log_capacity" (writeInt settings.logCapacity.toNat)

end Settings

end Cityscape
