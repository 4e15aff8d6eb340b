import Mathlib

/-!
# What a transmission carries

The identities the transport shares: wire sequence numbers, the key of a tile
pass, and the content of one datagram. Clock readings and durations are
nanosecond counts; `Instant::saturating_duration_since` is then subtraction of
natural numbers, and `Duration / n` is the integer quotient.
-/

namespace Ghostframe.Transport

/-- A monotonic clock reading, in nanoseconds. -/
abbrev Instant := ℕ

/-- A span of time, in nanoseconds. -/
abbrev Duration := ℕ

/-- The 32-bit number every reliable datagram is stamped with. -/
abbrev WireSeq := UInt32

/-- `Duration::from_millis`. -/
def fromMillis (n : ℕ) : Duration := n * 1000000

/-- `Duration::from_secs`. -/
def fromSecs (n : ℕ) : Duration := n * 1000000000

/-- `Duration::as_micros`. -/
def asMicros (d : Duration) : ℕ := d / 1000

/-- Logical identity of a tile pass: the unit acknowledged, NACKed and resent. -/
structure EmitKey where
  frameSeq : UInt32
  tileX : UInt8
  tileY : UInt8
  passIdx : UInt8
  deriving DecidableEq

/-- What a transmission carries. -/
inductive Content
  | tile (key : EmitKey)
  | h264Frag (frameSeq : UInt32) (fragIdx : UInt16)
  | pad (ws : WireSeq)
  deriving DecidableEq

/-- `Content::tile`: the tile pass this is, if it is one. -/
def Content.tile? : Content → Option EmitKey
  | .tile k => some k
  | .h264Frag _ _ => none
  | .pad _ => none

/-- Probe padding (`matches!(content, Content::Pad(_))`). -/
def Content.isPad : Content → Bool
  | .pad _ => true
  | _ => false

/-- A tile pass (`matches!(content, Content::Tile(_))`). -/
def Content.isTile : Content → Bool
  | .tile _ => true
  | _ => false

/-- Source datagrams in one parity group (`FEC_GROUP_SIZE_K`). -/
def fecGroupSizeK : ℕ := 10

/-- How far behind the first `wire_seq` of its group a parity is sent
(`PARITY_INTERLEAVE_OFFSET`). -/
def parityInterleaveOffset : ℕ := 2 * fecGroupSizeK

end Ghostframe.Transport
