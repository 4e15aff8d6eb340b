import Ghostframe.Lib.Bits
import Ghostframe.Protocol.Wire

/-!
# The acknowledgement of H.264 frames

`FrameAck` restates the fate of the 64 frames that end at `newestSeq`, one bit each
in two masks. `FrameAck.decode_encode`: the server reads what the client wrote.
-/

namespace Ghostframe.Protocol

def frameAckEnvelope : UInt8 := 0x0A
def frameAckSize : ℕ := 1 + 4 + 8 + 8

/-- Cumulative acknowledgement of H.264 frames. -/
structure FrameAck where
  newestSeq : UInt32
  decodedMask : UInt64
  refusedMask : UInt64
  deriving DecidableEq

namespace FrameAck

variable (a : FrameAck)

/-- `FrameAck::encode`. -/
def encode : Bytes :=
  frameAckEnvelope :: (le32 a.newestSeq ++ le64 a.decodedMask ++ le64 a.refusedMask)

/-- `FrameAck::decode`. -/
def decode (data : Bytes) : Except ProtocolError FrameAck :=
  if data.length < frameAckSize then .error (.tooShort frameAckSize data.length)
  else if data.headD 0 ≠ frameAckEnvelope then .error (.unknownEnvelope (data.headD 0))
  else if data.length ≠ frameAckSize then .error .invalidLength
  else .ok ⟨le32At data 1, le64At data 5, le64At data 13⟩

/-- `FrameAck::bit`: a frame outside the window has no bit. -/
def bit (mask : UInt64) (seq : UInt32) : Bool :=
  let back := ((a.newestSeq - seq) &&& 0x7FFFFFFF).toNat
  decide (back < 64) && bit64 mask back

/-- `FrameAck::is_decoded`. -/
def isDecoded (seq : UInt32) : Bool := a.bit a.decodedMask seq

/-- `FrameAck::is_refused`. -/
def isRefused (seq : UInt32) : Bool := a.bit a.refusedMask seq

/-- An acknowledgement is read back as it was written. -/
theorem decode_encode : decode a.encode = .ok a := by
  have hnewest : le32At a.encode 1 = a.newestSeq :=
    le32At_append [frameAckEnvelope] (le64 a.decodedMask ++ le64 a.refusedMask) a.newestSeq
  have hdecoded : le64At a.encode 5 = a.decodedMask :=
    le64At_append (frameAckEnvelope :: le32 a.newestSeq) (le64 a.refusedMask) a.decodedMask
  have hrefused : le64At a.encode 13 = a.refusedMask := by
    have h := le64At_append (frameAckEnvelope :: (le32 a.newestSeq ++ le64 a.decodedMask)) []
      a.refusedMask
    rwa [List.append_nil] at h
  unfold decode
  rw [if_neg (by exact lt_irrefl _), if_neg (by simp [encode]),
    if_neg (by exact not_not.2 rfl), hnewest, hdecoded, hrefused]

end FrameAck

end Ghostframe.Protocol
