import Ghostframe.Codec.PalRle
import Ghostframe.Protocol.Wire

/-!
# What the client core hands to its consumer

`Event` is what one datagram produces, `PollOutput` what the core wants sent.
-/

namespace Ghostframe.Client

open Codec Protocol

/-- Why a tile payload is refused. -/
inductive DecodeErrorCode
  | payloadTooShort
  | countOutOfRange
  | thinUncachedPalette
  | bundledTruncated
  | indexOob
  | rleOvershoot
  | rleUndershoot
  | cdf53BadPass
  | cdf53Truncated
  | cdf53RleLength
  deriving DecidableEq

/-- `code as u8`. -/
def DecodeErrorCode.toU8 : DecodeErrorCode → UInt8
  | .payloadTooShort => 1
  | .countOutOfRange => 2
  | .thinUncachedPalette => 3
  | .bundledTruncated => 4
  | .indexOob => 5
  | .rleOvershoot => 6
  | .rleUndershoot => 7
  | .cdf53BadPass => 8
  | .cdf53Truncated => 9
  | .cdf53RleLength => 10

/-- A validated tile payload. -/
inductive TileData
  | solid (bgra : Bgra)
  | palRle (paletteId count : UInt8) (indices : Bytes) (wireFlags : UInt8)
  | cdf53 (passIdx : UInt8) (bitPlanes : Bytes) (presentPasses : Option UInt16)
      (newGeneration : Bool)
  | cdf53Wire (passIdx : UInt8) (streams : Bytes) (presentPasses : Option UInt16)
      (newGeneration : Bool)
  deriving DecidableEq

/-- Why the server closed the session. -/
inductive EvictionReason
  | displacedByNewSession
  | unknown (code : UInt8)
  deriving DecidableEq

/-- `EvictionReason::from_byte`. -/
def EvictionReason.fromByte (b : UInt8) : EvictionReason :=
  if b = 1 then .displacedByNewSession else .unknown b

/-- A decode or render event. -/
inductive Event
  | tileReady (frameSeq : UInt32) (tileX tileY : UInt8) (rgba : Bytes)
  | frameDimensions (width height : UInt32)
  | needsH264 (frameSeq timestampUs : UInt32) (isKeyframe : Bool) (refFrameSeq : UInt32)
      (flags slots : UInt8) (resetDecoder : Bool) (payload : Bytes)
  | decodeError (codec : Protocol.Codec) (tileX tileY : UInt8) (code : DecodeErrorCode)
  | tilePayload (frameSeq : UInt32) (tileX tileY generation : UInt8) (data : TileData)
  | paletteUpdated (paletteId : UInt8) (colors : List Bgra)
  | evicted (reason : EvictionReason)
  deriving DecidableEq

/-- A message to send. -/
inductive PollOutput
  | datagram (bytes : Bytes)
  | stream (bytes : Bytes)
  deriving DecidableEq

end Ghostframe.Client
