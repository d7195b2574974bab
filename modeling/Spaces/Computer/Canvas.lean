import Mathlib.Data.Rat.Defs
import Mathlib.Algebra.Order.Ring.Rat
import Spaces.Computer.Association
import Spaces.Library.Outcome
import Spaces.Mcp.Protocol

/-!
# The canvas of the displays, and the devices that point into it

The displays are tiles of one layout, which an overview shows at its own scale.
The key of an overview says which displays and which pointer regions it was taken
with, and coordinates of it are good as long as the key is. A point is handed to
the device whose region is mapped to the tile the point is in.

A device of the input library stays on its seat. Coordinates are exact.
-/

namespace Spaces.Computer.Pointer

open Spaces.Library
open Spaces.Computer.Association (CanvasRect)
open Spaces.Mcp (Failure)

/-- A device of the input library. -/
structure EiDevice where
  id : Nat
  seat : Nat
  deriving DecidableEq

inductive Capability where
  | pointerAbsolute
  | button
  | scroll
  deriving DecidableEq

structure Region where
  mappingId : Option Text
  x : BitVec 32
  y : BitVec 32
  width : Nat
  height : Nat
  deriving DecidableEq

structure InputDevice where
  device : EiDevice
  resumed : Bool
  capabilities : List Capability
  regions : List Region

structure Display where
  mappingId : Option Text
  width : Nat
  height : Nat
  logicalX : Int
  logicalY : Int
  logicalWidth : Int
  logicalHeight : Int
  hasGeometry : Bool
  revision : Nat
  failed : Bool

/-- The numbers of a tile, as the key spells them. -/
structure TileKey where
  mappingId : Option Text
  width : Nat
  height : Nat
  revision : Nat
  logical : Int × Int × Int × Int
  deriving DecidableEq

/-- What the key of a layout is made of. -/
structure CanvasKey where
  mappingRevision : Nat
  owner : Option Text
  tiles : List TileKey
  devices : List (EiDevice × Bool × List Region)
  deriving DecidableEq

structure CanvasLayout where
  tiles : List (CanvasRect ℚ)
  x : ℚ
  y : ℚ
  width : ℚ
  height : ℚ

structure CanvasSnapshot where
  key : CanvasKey
  width : Nat
  height : Nat
  layout : CanvasLayout

structure VisualSession where
  broken : Bool
  owner : Option Text
  devices : List InputDevice
  displays : List Display
  mappingRevision : Nat
  canvas : Option CanvasSnapshot

def InputDevice.hasCapability (device : InputDevice) (capability : Capability) : Bool :=
  device.capabilities.any (· = capability)

/-! ## The layout -/

def Display.tile (display : Display) : CanvasRect ℚ :=
  ⟨display.logicalX, display.logicalY, display.logicalWidth, display.logicalHeight⟩

def overlap (rect other : CanvasRect ℚ) : Bool :=
  rect.x < other.x + other.width && other.x < rect.x + rect.width &&
    rect.y < other.y + other.height && other.y < rect.y + rect.height

/-- The tiles of the displays, each checked against those before it. -/
def placeTiles (broken : Bool) : List (CanvasRect ℚ) → List Display →
    Except Failure (List (CanvasRect ℚ))
  | placed, [] => .ok placed
  | placed, display :: rest =>
      if display.failed || broken then
        .error ⟨"capture_unavailable", "KWin desktop access disconnected."⟩
      else if display.width = 0 || display.height = 0 || display.tile.width ≤ 0 ||
          display.tile.height ≤ 0 then
        .error ⟨"capture_unavailable", "A KWin output has no valid dimensions."⟩
      else if placed.any (overlap display.tile) then
        .error ⟨"ambiguous_canvas_layout",
          "Granted capture regions overlap; a unique canvas cannot be established."⟩
      else placeTiles broken (placed ++ [display.tile]) rest

/-- The smallest rectangle around the tiles. -/
def boundingLayout (first : CanvasRect ℚ) (rest : List (CanvasRect ℚ)) : CanvasLayout :=
  let x := rest.foldl (fun x tile => min x tile.x) first.x
  let y := rest.foldl (fun y tile => min y tile.y) first.y
  let right := rest.foldl (fun right tile => max right (tile.x + tile.width))
    (first.x + first.width)
  let bottom := rest.foldl (fun bottom tile => max bottom (tile.y + tile.height))
    (first.y + first.height)
  { tiles := first :: rest, x, y, width := right - x, height := bottom - y }

def canvasKey (visual : VisualSession) : CanvasKey where
  mappingRevision := visual.mappingRevision
  owner := visual.owner
  tiles := visual.displays.map fun display =>
    ⟨display.mappingId, display.width, display.height, display.revision,
      display.logicalX, display.logicalY, display.logicalWidth, display.logicalHeight⟩
  devices := (visual.devices.filter (·.hasCapability .pointerAbsolute)).map fun device =>
    (device.device, device.resumed, device.regions)

def canvasLayout (visual : VisualSession) : Except Failure (CanvasLayout × CanvasKey) :=
  if visual.displays.isEmpty then
    .error ⟨"capture_unavailable", "KWin has no active desktop outputs."⟩
  else if visual.displays.any fun display =>
      !display.hasGeometry || display.logicalWidth ≤ 0 || display.logicalHeight ≤ 0 then
    .error ⟨"canvas_layout_unavailable", "KWin did not provide complete output geometry."⟩
  else do
    match ← placeTiles visual.broken [] visual.displays with
    | [] => .error ⟨"capture_unavailable", "KWin has no active desktop outputs."⟩
    | first :: rest => .ok (boundingLayout first rest, canvasKey visual)

/-- The overview, while it says what the session does. -/
def validateCanvas (visual : VisualSession) : Except Failure CanvasSnapshot :=
  match visual.canvas with
  | none =>
      .error ⟨"stale_capture", "Take a full desktop overview before sending pixel input."⟩
  | some canvas => do
      let (_, key) ← canvasLayout visual
      if key = canvas.key then .ok canvas
      else .error ⟨"stale_capture",
        "Desktop geometry or input mapping changed. Take a new full overview."⟩

/-! ## Where a point goes -/

def rectContains (rect : CanvasRect ℚ) (x y : ℚ) : Bool :=
  rect.x ≤ x && rect.y ≤ y && x < rect.x + rect.width && y < rect.y + rect.height

structure RegionBinding where
  device : EiDevice
  region : Region
  deriving DecidableEq

/-- The regions of the devices that a pointer can be moved with. -/
def pointerRegions (devices : List InputDevice) : List RegionBinding :=
  (devices.filter fun device => device.resumed && device.hasCapability .pointerAbsolute).flatMap
    fun device => device.regions.map fun region => ⟨device.device, region⟩

/-- The only region with the mapping of a display. A single region is that of a
single display without one. -/
def bindStreamRegion (visual : VisualSession) (display : Display) : Option RegionBinding :=
  let regions := pointerRegions visual.devices
  let matching := regions.filter fun binding =>
    display.mappingId.isSome && binding.region.mappingId = display.mappingId
  let chosen :=
    match matching, regions with
    | [], [only] =>
        if display.mappingId.isNone && visual.displays.length = 1 then some only else none
    | [binding], _ => some binding
    | _, _ => none
  chosen.filter fun binding => 0 < binding.region.width && 0 < binding.region.height

/-- A point on a device. -/
structure Target where
  device : EiDevice
  x : ℚ
  y : ℚ
  deriving DecidableEq

/-- The point of the layout that a point of the overview shows. -/
def CanvasSnapshot.logical (canvas : CanvasSnapshot) (x y : ℚ) : ℚ × ℚ :=
  (canvas.layout.x + x * canvas.layout.width / canvas.width,
    canvas.layout.y + y * canvas.layout.height / canvas.height)

/-- The tiles with the displays they are of. -/
def CanvasSnapshot.screens (canvas : CanvasSnapshot) (visual : VisualSession) :
    List (CanvasRect ℚ × Display) :=
  canvas.layout.tiles.zip visual.displays

/-- The screen that a point of the layout is on. -/
def screenAt (screens : List (CanvasRect ℚ × Display)) (point : ℚ × ℚ) :
    Option (CanvasRect ℚ × Display) :=
  screens.find? fun screen => rectContains screen.1 point.1 point.2

def onRegion (binding : RegionBinding) (tile : CanvasRect ℚ) (point : ℚ × ℚ) : Target where
  device := binding.device
  x := binding.region.x.toInt + (point.1 - tile.x) * binding.region.width / tile.width
  y := binding.region.y.toInt + (point.2 - tile.y) * binding.region.height / tile.height

/-- Where a point of the overview goes; nowhere, if it may be in a gap and is. -/
def pointerTarget (visual : VisualSession) (x y : ℚ) (allowGap : Bool) :
    Except Failure (Option Target) := do
  let canvas ← validateCanvas visual
  if x < 0 || y < 0 || (canvas.width : ℚ) ≤ x || (canvas.height : ℚ) ≤ y then
    .error ⟨"invalid_coordinates", "Coordinates lie outside the full desktop overview."⟩
  else
    let point := canvas.logical x y
    match screenAt (canvas.screens visual) point with
    | some (tile, display) =>
        match bindStreamRegion visual display with
        | none =>
            .error ⟨"ambiguous_display_mapping",
              "The image and input region cannot be paired uniquely. No pointer input was sent."⟩
        | some binding => .ok (some (onRegion binding tile point))
    | none =>
        if allowGap then .ok none
        else .error ⟨"invalid_coordinates",
          "Coordinates fall in a gap between granted desktop regions."⟩

end Spaces.Computer.Pointer
