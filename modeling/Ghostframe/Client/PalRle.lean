import Ghostframe.Client.Event

/-!
# PalRle payloads on the client

* `PaletteShadow`: which palette slots have been filled, and with how many colours;
* `prevalidatePalRle`: a payload to its 512 bytes of indices and, when it is
  bundled, the palette it carries.
-/

namespace Ghostframe.Client

open Codec

/-- `PaletteShadow`: the number of colours of each slot, 0 when it is not filled. -/
structure PaletteShadow where
  counts : UInt8 → UInt8 := fun _ => 0

namespace PaletteShadow

/-- `PaletteShadow::new`. -/
def new : PaletteShadow := {}

variable (s : PaletteShadow)

/-- `has`. -/
def has (id : UInt8) : Bool := decide (s.counts id ≠ 0)

/-- `count`. -/
def count (id : UInt8) : UInt8 := s.counts id

/-- `put`. -/
def put (id count : UInt8) : PaletteShadow :=
  if 1 ≤ count ∧ count ≤ 16 then ⟨Function.update s.counts id count⟩ else s

end PaletteShadow

/-- How a payload is laid out. -/
inductive PalRleVariant
  | bundled
  | thin
  | indicesRaw
  deriving DecidableEq

/-- A payload after validation. -/
structure PrevalidatedPalRle where
  variant : PalRleVariant
  wireFlags : UInt8
  paletteId : UInt8
  count : UInt8
  indices : Bytes
  paletteUpsert : Option Bytes
  deriving DecidableEq

/-- Write the index of one pixel, low nibble first. -/
def setNibble (indices : Bytes) (pixel : ℕ) (idx : UInt8) : Bytes :=
  indices.modify (pixel / 2) fun b =>
    if pixel % 2 = 0 then (b &&& (0xF0 : UInt8)) ||| idx
    else (b &&& (0x0F : UInt8)) ||| (idx <<< (4 : UInt8))

/-- Write a run of one index, unless it passes the end of the tile. -/
def putRun (idx : UInt8) : ℕ → Bytes → ℕ → Option (Bytes × ℕ)
  | 0, indices, pixel => some (indices, pixel)
  | run + 1, indices, pixel =>
    if 1024 ≤ pixel then none else putRun idx run (setNibble indices pixel idx) (pixel + 1)

/-- The loop of `expand_rle_to_indices`. -/
def expandRuns : Bytes → Bytes → ℕ → Option (Bytes × ℕ)
  | [], indices, pixel => some (indices, pixel)
  | b :: rest, indices, pixel =>
    match putRun ((b >>> 4) &&& 0x0F) ((b &&& 0x0F).toNat + 1) indices pixel with
    | none => none
    | some (indices', pixel') => expandRuns rest indices' pixel'

/-- `expand_rle_to_indices`. -/
def expandRleToIndices (rle : Bytes) : Option Bytes :=
  match expandRuns rle (List.replicate 512 0) 0 with
  | none => none
  | some (indices, pixel) => if pixel ≠ 1024 then none else some indices

/-- The bundled palette of a payload: its count, its bytes, and where the indices begin. -/
def bundledPalette (payload : Bytes) : Except DecodeErrorCode (UInt8 × Bytes × ℕ) :=
  if payload.length ≤ 2 then .error .bundledTruncated
  else
    let count := payload.getD 2 0
    if ¬ (1 ≤ count ∧ count ≤ 16) then .error .countOutOfRange
    else
      let paletteBytes := count.toNat * 4
      if 3 + paletteBytes > payload.length then .error .bundledTruncated
      else .ok (count, (payload.drop 3).take paletteBytes, 3 + paletteBytes)

/-- `prevalidate_pal_rle`. -/
def prevalidatePalRle (payload : Bytes) (shadow : PaletteShadow) :
    Except DecodeErrorCode PrevalidatedPalRle :=
  if payload.length < 2 then .error .payloadTooShort
  else
    let flags := payload.getD 0 0
    let paletteId := payload.getD 1 0
    if flags &&& 0x02 ≠ 0 then
      if payload.length < 2 + 512 then .error .payloadTooShort
      else if !shadow.has paletteId then .error .thinUncachedPalette
      else
        .ok ⟨.indicesRaw, flags, paletteId, shadow.count paletteId, (payload.drop 2).take 512, none⟩
    else if flags &&& 0x01 ≠ 0 then
      match bundledPalette payload with
      | .error e => .error e
      | .ok (count, upsert, cursor) =>
        match expandRleToIndices (payload.drop cursor) with
        | none => .error .payloadTooShort
        | some indices => .ok ⟨.bundled, flags, paletteId, count, indices, some upsert⟩
    else if !shadow.has paletteId then .error .thinUncachedPalette
    else
      match expandRleToIndices (payload.drop 2) with
      | none => .error .payloadTooShort
      | some indices => .ok ⟨.thin, flags, paletteId, shadow.count paletteId, indices, none⟩

end Ghostframe.Client
