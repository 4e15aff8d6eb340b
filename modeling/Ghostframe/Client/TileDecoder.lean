import Ghostframe.Client.Cdf53
import Ghostframe.Client.PalRle

/-!
# Pixels from validated payloads

`TileDecoder.decode` maps one event of the core to what the `Decoded` delivery
mode emits in its place: a tile payload becomes its pixels, a palette update is
absorbed, every other event passes through. Batched decoding, which only delays
reconstructions, is not modelled.
-/

namespace Ghostframe.Client

open Codec

/-- The state of the pixel decoder. -/
structure TileDecoder where
  palettes : UInt8 → List Bgra := fun _ => List.replicate 16 {}
  cdf53 : Cdf53TileState := {}
  cdf53Passthrough : Bool := false
  cdf53WireFailed : ℕ := 0

namespace TileDecoder

/-- `TileDecoder::new`. -/
def new : TileDecoder := {}

/-- One pixel, alpha forced. -/
def rgbaOf (c : Bgra) : Bytes := [c.r, c.g, c.b, 255]

/-- The pixels of a solid tile. -/
def solidPixels (bgra : Bgra) : Bytes := (List.replicate 1024 (rgbaOf bgra)).flatten

/-- The pixels of indices through a palette. -/
def palettePixels (palette : List Bgra) (indices : Bytes) : Bytes :=
  (List.range 1024).flatMap fun pixel =>
    rgbaOf (palette.getD (nibbleAt indices pixel).toNat {})

/-- `write_bgr_rows`. -/
def bgrPixels (bgr : Bytes) : Bytes :=
  (List.range 1024).flatMap fun pixel =>
    [bgr.getD (3 * pixel + 2) 0, bgr.getD (3 * pixel + 1) 0, bgr.getD (3 * pixel) 0, 255]

variable (d : TileDecoder)

/-- A palette update: only the reported entries change. -/
def updatePalette (paletteId : UInt8) (colors : List Bgra) : TileDecoder :=
  let slot := d.palettes paletteId
  { d with
    palettes := Function.update d.palettes paletteId
      (colors.take slot.length ++ slot.drop colors.length) }

/-- Columns and rows of the grid of a frame size. -/
def divCeil (n d : ℕ) : ℕ := (n + (d - 1)) / d

/-- Does the grid of a frame size contain a tile? -/
def inGrid (width height : UInt32) (tileX tileY : UInt8) : Bool :=
  decide (tileX.toNat < divCeil width.toNat 32) && decide (tileY.toNat < divCeil height.toNat 32)

/-- A CDF 5/3 pass. -/
def decodeCdf53 (frameSeq : UInt32) (tileX tileY generation passIdx : UInt8)
    (bitPlanes : Bytes) (presentPasses : Option UInt16) (newGeneration : Bool) :
    TileDecoder × Option Event :=
  if d.cdf53Passthrough then
    (d, some (.tilePayload frameSeq tileX tileY generation
      (.cdf53 passIdx bitPlanes presentPasses newGeneration)))
  else
    let held := if newGeneration then d.cdf53.forgetTile tileX tileY else d.cdf53
    let drawn := held.integrateBgr tileX tileY ⟨generation, passIdx, bitPlanes, presentPasses⟩
    ({ d with cdf53 := drawn.1 },
      drawn.2.map fun bgr => .tileReady frameSeq tileX tileY (bgrPixels bgr))

/-- `decode`. -/
def decode : Event → TileDecoder × Option Event
  | .tilePayload frameSeq tileX tileY generation data =>
    match data with
    | .solid bgra => (d, some (.tileReady frameSeq tileX tileY (solidPixels bgra)))
    | .palRle paletteId _ indices _ =>
      (d, some (.tileReady frameSeq tileX tileY (palettePixels (d.palettes paletteId) indices)))
    | .cdf53 passIdx bitPlanes presentPasses newGeneration =>
      d.decodeCdf53 frameSeq tileX tileY generation passIdx bitPlanes presentPasses newGeneration
    | .cdf53Wire passIdx streams presentPasses newGeneration =>
      match decodeCdf53Wire streams (List.replicate 384 0) with
      | .error _ => ({ d with cdf53WireFailed := d.cdf53WireFailed + 1 }, none)
      | .ok bitPlanes =>
        d.decodeCdf53 frameSeq tileX tileY generation passIdx bitPlanes presentPasses
          newGeneration
  | .paletteUpdated paletteId colors => (d.updatePalette paletteId colors, none)
  | .frameDimensions width height =>
    ({ d with cdf53 := d.cdf53.retainTiles (inGrid width height) },
      some (.frameDimensions width height))
  | ev@(.tileReady ..) | ev@(.needsH264 ..) | ev@(.decodeError ..) | ev@(.evicted ..) =>
    (d, some ev)

/-- Decode the events of one datagram, in order. -/
def decodeAll (d : TileDecoder) : List Event → TileDecoder × List Event
  | [] => (d, [])
  | ev :: rest =>
    let decoded := d.decode ev
    let later := decodeAll decoded.1 rest
    (later.1, decoded.2.toList ++ later.2)

end TileDecoder

end Ghostframe.Client
