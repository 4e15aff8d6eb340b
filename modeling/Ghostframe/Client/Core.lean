import Ghostframe.Client.Batchers
import Ghostframe.Client.Coverage
import Ghostframe.Client.H264Gate
import Ghostframe.Client.ParityDecoder
import Ghostframe.Client.TileDecoder

/-!
# The client core

`ClientCore` is everything one datagram can read or change. Loss measurement and
the timers of the periodic sweeps are left out: nothing here reads them.

* `ClientCore.new`: the core after the greeting has been queued;
* `ackTransmission`, `reportDecodeError`, `requestReset`, `queuePassNack`: the
  reports a datagram can cause;
* `h264Result`: the decoder's answer about a frame.

Times are microseconds, natural numbers.
-/

namespace Ghostframe.Client

open Codec Protocol

def nackDebounceUs : ℕ := 50000
def maxFrameDimension : UInt32 := 8192
def maxFrameFragments : UInt16 := 16384
def maxH264AccessUnitBytes : ℕ := 16 * 1024 * 1024

def helloMsgType : UInt8 := 0x03
def displayInfoMsgType : UInt8 := 0x07
def resetRequestMsgType : UInt8 := 0x09

/-- One H.264 access unit in the making. -/
structure FrameAssembly where
  header : FrameHeader
  createdUs : ℕ
  fragments : List (Option Bytes)
  received : ℕ
  bytes : ℕ
  deriving DecidableEq

/-- A request for a pass, waiting for the debounce interval. -/
structure PendingNack where
  frameSeq : UInt32
  tileX : UInt8
  tileY : UInt8
  passIdx : UInt8
  deriving DecidableEq

/-- Does the core decode tiles to pixels, or hand the payload up? -/
inductive TileDelivery
  | decoded
  | payload
  deriving DecidableEq

/-- What the client knows about its display. -/
structure ClientDisplay where
  maxWidth : UInt16
  maxHeight : UInt16
  scaleMilli : UInt16
  mmWidth : UInt16
  mmHeight : UInt16
  deriving DecidableEq

/-- The configuration of a session. -/
structure ClientConfig where
  indicesRawEnabled : Bool := false
  supportsH264 : Bool := false
  h264AckedRef : Bool := false
  tileDelivery : TileDelivery := .decoded
  cdf53Wire : Bool := false
  display : Option ClientDisplay := none
  deriving DecidableEq

/-- The state of the client. -/
structure ClientCore where
  outbox : List PollOutput := []
  frameDims : Option (UInt32 × UInt32) := none
  parityDecoder : ParityDecoder := .new parityWindow
  ackBatcher : AckBatcher := {}
  decodeErrorBatcher : DecodeErrorBatcher := {}
  paletteShadow : PaletteShadow := .new
  cdf53Coverage : Dict (UInt8 × UInt8) CoverageEntry := Dict.empty
  newestReceivedLabel : Option UInt32 := none
  latestFrameSeq : UInt32 := 0
  frameAssemblies : Dict UInt32 FrameAssembly := Dict.empty
  latestFullFrameSeq : UInt32 := 0
  h264Gate : H264Gate := {}
  frameAcks : FrameAckWindow := {}
  decoderBroken : Bool := false
  decoderEpochStart : Option UInt32 := none
  pendingNacks : Dict (UInt8 × UInt8 × UInt8) PendingNack := Dict.empty
  pendingNackDeadlineUs : Option ℕ := none
  decoder : Option TileDecoder := none
  cdf53Wire : Bool := false
  datagramsTile : ℕ := 0
  datagramsFrame : ℕ := 0

/-! ### Messages -/

/-- `encode_hello`. -/
def encodeHello (indicesRaw supportsH264 h264AckedRef : Bool) : Bytes :=
  [helloMsgType,
    (if indicesRaw then 0x01 else 0) ||| (if supportsH264 then 0x02 else 0) |||
      (if h264AckedRef then 0x04 else 0)]

/-- `encode_display_info`. -/
def encodeDisplayInfo (d : ClientDisplay) : Bytes :=
  [displayInfoMsgType] ++ be16 d.maxWidth ++ be16 d.maxHeight ++ be16 d.scaleMilli ++
    be16 d.mmWidth ++ be16 d.mmHeight

/-- `encode_reset_request`. -/
def encodeResetRequest (reason : ResetReason) (frameSeq : UInt32) : Bytes :=
  [resetRequestMsgType, reason.toU8] ++ le32 frameSeq

namespace ClientCore

/-- `ClientCore::new`. -/
def new (config : ClientConfig) : ClientCore where
  outbox :=
    .stream (encodeHello config.indicesRawEnabled config.supportsH264 config.h264AckedRef) ::
      (config.display.map fun d => .stream (encodeDisplayInfo d)).toList
  decoder := if config.tileDelivery = .decoded then some .new else none
  cdf53Wire := config.cdf53Wire

variable (c : ClientCore)

/-- `delivers_cdf53_wire`. -/
def deliversCdf53Wire : Bool := c.cdf53Wire && c.decoder.isNone

/-- `request_reset`. -/
def requestReset (reason : ResetReason) (frameSeq : UInt32) : ClientCore :=
  { c with outbox := c.outbox ++ [.stream (encodeResetRequest reason frameSeq)] }

/-- `after_gate`: queue the request the gate wants sent, once. -/
def afterGate : ClientCore :=
  match c.h264Gate.request with
  | some (reason, frameSeq) =>
    { c with h264Gate := { c.h264Gate with request := none } }.requestReset reason frameSeq
  | none => c

/-- Is an answer about the frame from before the decoder was last found broken? -/
def beforeBoundary (frameSeq : UInt32) : Bool :=
  c.decoderBroken || c.decoderEpochStart.any fun e => seqAfter e frameSeq

/-- The decoder is broken: its frame is refused and the gate is reset. -/
def decoderBroke (cause : ResetCause) (frameSeq : UInt32) (nowUs : ℕ) : ClientCore :=
  { c with
    decoderBroken := true
    h264Gate := c.h264Gate.reset cause frameSeq nowUs
    frameAcks := c.frameAcks.record frameSeq false nowUs }

/-- `h264_result`. -/
def h264Result (frameSeq : UInt32) (outcome : H264Outcome) (nowUs : ℕ) : ClientCore :=
  match outcome with
  | .decoded =>
    { c with
      frameAcks := c.frameAcks.record frameSeq (!c.beforeBoundary frameSeq) nowUs }.afterGate
  | .notOutput => { c with frameAcks := c.frameAcks.record frameSeq false nowUs }.afterGate
  | .decodeError => (c.decoderBroke .decoderFailure frameSeq nowUs).afterGate
  | .noDecoder => (c.decoderBroke .noDecoder frameSeq nowUs).afterGate

/-- `queue_pass_nack`. -/
def queuePassNack (frameSeq : UInt32) (tileX tileY : UInt8) (nowUs : ℕ)
    (passIdx : UInt8) : ClientCore :=
  let key := (passIdx, tileY, tileX)
  if c.pendingNacks.contains key then c
  else
    { c with
      pendingNacks := c.pendingNacks.insert key ⟨frameSeq, tileX, tileY, passIdx⟩
      pendingNackDeadlineUs := some (c.pendingNackDeadlineUs.getD (nowUs + nackDebounceUs)) }

/-- Acknowledge a transmission. -/
def ackTransmission (wireSeq : UInt32) (nowUs : ℕ) : ClientCore :=
  let added := c.ackBatcher.add ⟨wireSeq, .ofNat (nowUs / 1000 % 2 ^ 16)⟩ nowUs
  { c with
    ackBatcher := added.1
    outbox := c.outbox ++ (added.2.map PollOutput.datagram).toList }

/-- Report a payload that could not be validated. -/
def reportDecodeError (codec : Protocol.Codec) (tileX tileY : UInt8)
    (code : DecodeErrorCode) (nowUs : ℕ) : ClientCore :=
  let reported := c.decodeErrorBatcher.report codec tileX tileY code nowUs
  { c with
    decodeErrorBatcher := reported.1
    outbox := c.outbox ++ (reported.2.map PollOutput.stream).toList }

end ClientCore

end Ghostframe.Client
