import Ghostframe.Client.Core

/-!
# Reassembling H.264 access units

`handleFrameDatagram` takes one fragment: it is acknowledged, then judged against
the window of recent frames, then stored in the assembly of its frame. A complete
assembly goes through the reference gate and out as one event.

* `evictStaleFrameAssemblies`: the window is the two frames before the newest, and
  one IDR that may still complete.
-/

namespace Ghostframe.Client

open Protocol

/-- `IDR_EXEMPT_US`. -/
def idrExemptUs : ℕ := 2000000

namespace FrameAssembly

/-- The assembly a first fragment opens. -/
def start (fh : FrameHeader) (nowUs : ℕ) : FrameAssembly where
  header := fh
  createdUs := nowUs
  fragments := List.replicate fh.fragTotal.toNat none
  received := 0
  bytes := 0

variable (a : FrameAssembly)

/-- Is the slot of a fragment there and free? -/
def isFree (fi : ℕ) : Bool := decide (a.fragments[fi]? = some none)

/-- Store a fragment in its slot. -/
def put (fi : ℕ) (payload : Bytes) : FrameAssembly :=
  { a with
    fragments := a.fragments.set fi (some payload)
    received := a.received + 1
    bytes := a.bytes + payload.length }

/-- Has every fragment arrived? -/
def isComplete : Bool := decide (a.received = a.fragments.length)

/-- The access unit. -/
def payload : Bytes := (a.fragments.filterMap id).flatten

/-- The assembly is inside its exemption. -/
def isExempt (nowUs : ℕ) : Bool := decide (nowUs - a.createdUs < idrExemptUs)

end FrameAssembly

namespace ClientCore

variable (c : ClientCore)

/-- `newest_idr_assembly`. -/
def newestIdrAssembly : Option UInt32 :=
  ((c.frameAssemblies.toList.filter fun e => e.2.header.isKeyframe).map fun e => e.1).foldl
    (fun newest seq => some ((newest.map fun n => max n seq).getD seq)) none

/-- The oldest frame number of the window. -/
def windowThreshold : ℕ := c.latestFullFrameSeq.toNat - 2

/-- `evict_stale_frame_assemblies`. -/
def evictStaleFrameAssemblies (nowUs : ℕ) : ClientCore :=
  let keep := c.newestIdrAssembly.filter fun seq =>
    (c.frameAssemblies.get? seq).any fun a => a.isExempt nowUs
  { c with
    frameAssemblies := c.frameAssemblies.retain fun seq _ =>
      decide (c.windowThreshold ≤ seq.toNat) || decide (some seq = keep) }

/-- `idr_fragment_is_exempt`. -/
def idrFragmentIsExempt (fh : FrameHeader) (nowUs : ℕ) : Bool :=
  if !fh.isKeyframe then false
  else
    match c.frameAssemblies.get? fh.frameSeq with
    | some asm => asm.isExempt nowUs && decide (c.newestIdrAssembly = some fh.frameSeq)
    | none => c.newestIdrAssembly.all fun newest => decide (newest < fh.frameSeq)

variable (frameSeq : UInt32)

/-- The gate refuses a frame; a copy of a frame already fed has its answer coming. -/
def refuseFrame (cause : RefuseCause) (nowUs : ℕ) : ClientCore :=
  if cause = .stale ∧ c.h264Gate.wasFed frameSeq then c.afterGate
  else { c with frameAcks := c.frameAcks.record frameSeq false nowUs }.afterGate

/-- The gate feeds a frame. -/
def feedFrame (resetDecoder : Bool) : ClientCore :=
  if resetDecoder then
    { c with
      decoderEpochStart := if c.decoderBroken then some frameSeq else c.decoderEpochStart
      decoderBroken := false }.afterGate
  else c.afterGate

/-- The event of a frame that is fed. -/
def needsH264 (asm : FrameAssembly) (resetDecoder : Bool) : Event :=
  .needsH264 asm.header.frameSeq asm.header.timestampUs asm.header.isKeyframe
    asm.header.refFrameSeq asm.header.flags asm.header.slots resetDecoder asm.payload

/-- What follows the gate's verdict on a frame. -/
def answer (asm : FrameAssembly) (nowUs : ℕ) : Verdict → ClientCore × List Event
  | .refuse cause => (c.refuseFrame frameSeq cause nowUs, [])
  | .feed resetDecoder => (c.feedFrame frameSeq resetDecoder, [needsH264 asm resetDecoder])

/-- A complete assembly goes through the gate. -/
def judgeFrame (asm : FrameAssembly) (nowUs : ℕ) : ClientCore × List Event :=
  { c with h264Gate := (c.h264Gate.onFrame asm.header nowUs).1 }.answer frameSeq asm nowUs
    (c.h264Gate.onFrame asm.header nowUs).2

/-- `finish_frame_if_complete`. -/
def finishFrameIfComplete (nowUs : ℕ) : ClientCore × List Event :=
  match c.frameAssemblies.get? frameSeq with
  | none => (c, [])
  | some asm =>
    if asm.isComplete then
      { c with frameAssemblies := c.frameAssemblies.erase frameSeq }.judgeFrame frameSeq asm nowUs
    else (c, [])

/-- The frame number joins the window. -/
def noteFrame (nowUs : ℕ) : ClientCore :=
  { c with
    latestFullFrameSeq :=
      if c.latestFullFrameSeq < frameSeq then frameSeq else c.latestFullFrameSeq
    }.evictStaleFrameAssemblies nowUs

variable (fh : FrameHeader)

/-- The assembly of a fragment is opened if there is none; an IDR supersedes older ones. -/
def openAssembly (nowUs : ℕ) : ClientCore :=
  let c :=
    if c.frameAssemblies.contains fh.frameSeq then c
    else
      { c with
        frameAssemblies := c.frameAssemblies.insert fh.frameSeq (.start fh nowUs) }
  if fh.isKeyframe then c.evictStaleFrameAssemblies nowUs else c

/-- A fragment enters its assembly; a unit that grows too large is abandoned. -/
def storeFragment (payload : Bytes) (nowUs : ℕ) : ClientCore × List Event :=
  match c.frameAssemblies.get? fh.frameSeq with
  | none => (c, [])
  | some asm =>
    if asm.isFree fh.fragIdx.toNat then
      if asm.bytes + payload.length > maxH264AccessUnitBytes then
        ({ c with frameAssemblies := c.frameAssemblies.erase fh.frameSeq }, [])
      else
        { c with
          frameAssemblies :=
            c.frameAssemblies.insert fh.frameSeq (asm.put fh.fragIdx.toNat payload)
          }.finishFrameIfComplete fh.frameSeq nowUs
    else c.finishFrameIfComplete fh.frameSeq nowUs

/-- Is a fragment of no use any more? -/
def isMoot (nowUs : ℕ) : Bool :=
  (!fh.isKeyframe && c.h264Gate.lastFed.any fun last => decide (fh.frameSeq ≤ last)) ||
    (decide (fh.frameSeq.toNat < c.windowThreshold) && !c.idrFragmentIsExempt fh nowUs)

/-- A fragment after its acknowledgement. -/
def takeFragment (payload : Bytes) (nowUs : ℕ) : ClientCore × List Event :=
  if fh.flags &&& frameFlagPad ≠ 0 then (c, [])
  else if c.isMoot fh nowUs then (c, [])
  else
    let c := c.noteFrame fh.frameSeq nowUs
    -- both were refused before the acknowledgement; the source checks again
    if fh.fragTotal = 0 then (c, [])
    else if maxFrameFragments < fh.fragTotal then (c, [])
    else (c.openAssembly fh nowUs).storeFragment fh payload nowUs

/-- `handle_frame_datagram`. -/
def handleFrameDatagram (bytes : Bytes) (nowUs : ℕ) : ClientCore × List Event :=
  match decodeFrameDatagram bytes with
  | .error _ => (c, [])
  | .ok (fh, payload) =>
    if fh.fragTotal ≤ fh.fragIdx ∨ maxFrameFragments < fh.fragTotal then (c, [])
    else
      let c := if fh.wireSeq = noAck then c else c.ackTransmission fh.wireSeq nowUs
      c.takeFragment fh payload nowUs

end ClientCore

end Ghostframe.Client
