import Ghostframe.Protocol.Wire

/-!
# The H.264 reference gate

`H264Gate.onFrame` decides whether a completed access unit goes to the decoder: it
must be newer than everything fed, and be an IDR or predict from a picture the
client holds. `FrameAckWindow` remembers what became of the 64 newest frames.

Times are microseconds, natural numbers.
-/

namespace Ghostframe.Client

open Protocol

def resetRequestMinIntervalUs : ℕ := 2200000
def ackedRefStuckUs : ℕ := 2200000
def fedCap : ℕ := 128
def goodCap : ℕ := 128
def ltSlots : ℕ := 2

/-- `seq_after`: is `a` newer than `b`, by 31-bit serial arithmetic? -/
def seqAfter (a b : UInt32) : Bool :=
  let forward := ((a - b) &&& 0x7FFFFFFF).toNat
  decide (forward ≠ 0) && decide (forward < 2 ^ 30)

/-- Why the client asks for an IDR. -/
inductive ResetReason
  | decoderFailure
  | resolution
  | noDecoder
  | gateReset
  deriving DecidableEq

/-- `reason as u8`. -/
def ResetReason.toU8 : ResetReason → UInt8
  | .decoderFailure => 1
  | .resolution => 2
  | .noDecoder => 3
  | .gateReset => 4

/-- Why a frame is refused. -/
inductive RefuseCause
  | stale
  | noReference
  | badSlot
  deriving DecidableEq

/-- What the gate decides about a frame. -/
inductive Verdict
  | feed (resetDecoder : Bool)
  | refuse (cause : RefuseCause)
  deriving DecidableEq

/-- What the decoder did with a frame. -/
inductive H264Outcome
  | decoded
  | notOutput
  | decodeError
  | noDecoder
  deriving DecidableEq

/-- Why the gate is reset. -/
inductive ResetCause
  | idrReceived
  | resolution
  | decoderFailure
  | noDecoder
  deriving DecidableEq

/-- The gate. -/
structure H264Gate where
  good : List UInt32 := []
  lt : Option UInt32 × Option UInt32 := (none, none)
  newestRef : Option UInt32 := none
  lastFed : Option UInt32 := none
  waitingForIdr : Bool := false
  ackedRefStream : Bool := false
  refusingSinceUs : Option ℕ := none
  fed : List UInt32 := []
  lastRequestUs : Option ℕ := none
  lastFailureRequestUs : Option ℕ := none
  noDecoder : Bool := false
  request : Option (ResetReason × UInt32) := none
  decoderResetPending : Bool := false
  deriving DecidableEq

namespace H264Gate

/-- Has the pacing interval passed since the last request? -/
def due (nowUs : ℕ) (last : Option ℕ) : Bool :=
  last.all fun t => decide (nowUs - t ≥ resetRequestMinIntervalUs)

variable (g : H264Gate)

/-- `paced_request`. -/
def pacedRequest (reason : ResetReason) (seq : UInt32) (nowUs : ℕ) : H264Gate :=
  match reason with
  | .decoderFailure =>
    if due nowUs g.lastFailureRequestUs then
      { g with lastFailureRequestUs := some nowUs, request := some (reason, seq) }
    else g
  | .gateReset =>
    if due nowUs g.lastRequestUs && due nowUs g.lastFailureRequestUs then
      { g with lastRequestUs := some nowUs, request := some (reason, seq) }
    else g
  | .resolution | .noDecoder =>
    if due nowUs g.lastRequestUs then
      { g with lastRequestUs := some nowUs, request := some (reason, seq) }
    else g

/-- The references are forgotten; the next frame fed resets the decoder. -/
def forget : H264Gate :=
  { g with good := [], lt := (none, none), newestRef := none, decoderResetPending := true }

/-- `reset`. -/
def reset (cause : ResetCause) (frameSeq : UInt32) (nowUs : ℕ) : H264Gate :=
  let g := g.forget
  match cause with
  | .idrReceived => g
  | .resolution => { g with waitingForIdr := true }
  | .decoderFailure =>
    { g with waitingForIdr := true }.pacedRequest .decoderFailure frameSeq nowUs
  | .noDecoder =>
    let g := { g with waitingForIdr := true }
    if g.noDecoder then g
    else
      { g with
        noDecoder := true
        request := some (.noDecoder, frameSeq)
        lastRequestUs := some nowUs }

/-- `note_fed`. -/
def noteFed (seq : UInt32) : H264Gate :=
  let fed := g.fed ++ [seq]
  { g with fed := if fed.length > fedCap then fed.drop 1 else fed }

/-- `was_fed`. -/
def wasFed (seq : UInt32) : Bool := g.fed.contains seq

/-- `refuse`. -/
def refuse (g : H264Gate) (cause : RefuseCause) (seq : UInt32) (nowUs : ℕ) : H264Gate × Verdict :=
  if cause = .noReference then
    let g := { g with waitingForIdr := true }
    if g.noDecoder then (g, .refuse cause)
    else
      let since := g.refusingSinceUs.getD nowUs
      let g := { g with refusingSinceUs := some since }
      if !g.ackedRefStream || decide (nowUs - since ≥ ackedRefStuckUs) then
        (g.pacedRequest .gateReset seq nowUs, .refuse cause)
      else (g, .refuse cause)
  else (g, .refuse cause)

/-- Does the frame use a feature of acknowledged references? -/
def usesAckedRef (h : FrameHeader) : Bool :=
  decide (h.flags &&&
    (frameFlagNonRef ||| frameFlagMarkLt ||| frameFlagMarkTarget ||| frameFlagTargetIsLt) ≠ 0)

/-- An IDR is fed. -/
def feedIdr (seq : UInt32) (nowUs : ℕ) : H264Gate :=
  let g := (g.reset .idrReceived seq nowUs).noteFed seq
  { g with
    lastFed := some seq
    good := g.good ++ [seq]
    lt := (some seq, none)
    newestRef := some seq
    waitingForIdr := false
    refusingSinceUs := none
    decoderResetPending := false }

/-- The frame in long-term slot `slot`. -/
def ltAt (slot : ℕ) : Option UInt32 := if slot = 0 then g.lt.1 else g.lt.2

/-- Put a frame into long-term slot `slot`. -/
def setLt (slot : ℕ) (seq : UInt32) : H264Gate :=
  { g with lt := if slot = 0 then (some seq, g.lt.2) else (g.lt.1, some seq) }

/-- Is the picture a frame predicts from one the client holds? `none`: the slot does not exist. -/
def holdsTarget (h : FrameHeader) : Option Bool :=
  if h.flags &&& frameFlagTargetIsLt ≠ 0 then
    let slot := ((h.slots >>> 2) &&& 0x03).toNat
    if ltSlots ≤ slot then none
    else some (decide (h.refFrameSeq ≠ refFrameNone) && decide (g.ltAt slot = some h.refFrameSeq))
  else if h.refFrameSeq = refFrameNone then some (!g.waitingForIdr)
  else some (g.good.contains h.refFrameSeq && decide (g.newestRef = some h.refFrameSeq))

/-- Does the frame mark itself as a long-term reference? -/
def marks (h : FrameHeader) : Bool :=
  decide (h.flags &&& frameFlagMarkLt ≠ 0) && decide (h.flags &&& frameFlagNonRef = 0)

/-- Does the frame mark the picture it predicts from? -/
def marksTarget (h : FrameHeader) : Bool :=
  decide (h.flags &&& frameFlagMarkTarget ≠ 0) &&
    decide (h.flags &&& (frameFlagNonRef ||| frameFlagTargetIsLt) = 0)

/-- A predicted frame is fed. -/
def feedPredicted (h : FrameHeader) : H264Gate × Verdict :=
  let seq := h.frameSeq
  let markSlot := (h.slots &&& 0x03).toNat
  let g := { g with lastFed := some seq }.noteFed seq
  let good := g.good ++ [seq]
  let g := { g with good := if good.length > goodCap then good.drop 1 else good }
  let g :=
    if h.flags &&& frameFlagNonRef = 0 then
      let g := { g with newestRef := some seq }
      if marks h then g.setLt markSlot seq else g
    else g
  let g :=
    if marksTarget h && decide (h.refFrameSeq ≠ refFrameNone) then g.setLt markSlot h.refFrameSeq
    else g
  ({ g with refusingSinceUs := none, decoderResetPending := false }, .feed g.decoderResetPending)

/-- `on_frame`. -/
def onFrame (h : FrameHeader) (nowUs : ℕ) : H264Gate × Verdict :=
  let seq := h.frameSeq
  let g := if usesAckedRef h then { g with ackedRefStream := true } else g
  if g.lastFed.any fun l => !seqAfter seq l then (g, .refuse .stale)
  else if h.isKeyframe then (g.feedIdr seq nowUs, .feed true)
  else
    let markSlot := (h.slots &&& 0x03).toNat
    if (marks h || marksTarget h) && decide (ltSlots ≤ markSlot) then g.refuse .badSlot seq nowUs
    else if marks h && decide (h.flags &&& frameFlagMarkTarget ≠ 0) then
      g.refuse .badSlot seq nowUs
    else
      match g.holdsTarget h with
      | none => g.refuse .badSlot seq nowUs
      | some false => g.refuse .noReference seq nowUs
      | some true => g.feedPredicted h

@[simp] theorem seqAfter_self (seq : UInt32) : seqAfter seq seq = false := by
  simp [seqAfter]

theorem onFrame_again {g : H264Gate} {h : FrameHeader} (hfed : g.lastFed = some h.frameSeq)
    (nowUs : ℕ) :
    (g.onFrame h nowUs).2 = .refuse .stale ∧ (g.onFrame h nowUs).1.lastFed = some h.frameSeq := by
  unfold onFrame
  split_ifs <;> simp_all

theorem onFrame_firstIdr {g : H264Gate} {h : FrameHeader} (hfed : g.lastFed = none)
    (hkey : h.isKeyframe = true) (nowUs : ℕ) :
    (g.onFrame h nowUs).2 = .feed true ∧ (g.onFrame h nowUs).1.lastFed = some h.frameSeq := by
  unfold onFrame
  split_ifs <;> simp_all [feedIdr]

end H264Gate

/-! ### The frame-ack window -/

/-- `FrameAckWindow`: bit `i` of a mask is the frame `i` before the newest. -/
structure FrameAckWindow where
  newest : Option UInt32 := none
  decoded : UInt64 := 0
  refused : UInt64 := 0
  dirtySinceUs : Option ℕ := none
  lastSentUs : Option ℕ := none
  deriving DecidableEq

namespace FrameAckWindow

/-- `set`: a decode outranks a later refusal of the same frame. -/
def set (w : FrameAckWindow) (bit : ℕ) (decoded : Bool) : FrameAckWindow :=
  let m : UInt64 := 1 <<< UInt64.ofNat bit
  if !decoded && decide (w.decoded &&& m ≠ 0) then w
  else if decoded then { w with decoded := w.decoded ||| m, refused := w.refused &&& ~~~m }
  else { w with refused := w.refused ||| m, decoded := w.decoded &&& ~~~m }

/-- `record`. -/
def record (w : FrameAckWindow) (seq : UInt32) (decoded : Bool) (nowUs : ℕ) : FrameAckWindow :=
  let dirty (w : FrameAckWindow) := { w with dirtySinceUs := some (w.dirtySinceUs.getD nowUs) }
  match w.newest with
  | none => dirty ({ w with newest := some seq, decoded := 0, refused := 0 }.set 0 decoded)
  | some newest =>
    let forward := ((seq - newest) &&& 0x7FFFFFFF).toNat
    if forward = 0 then dirty (w.set 0 decoded)
    else if forward < 2 ^ 30 then
      let w :=
        if 64 ≤ forward then { w with decoded := 0, refused := 0 }
        else
          { w with
            decoded := w.decoded <<< UInt64.ofNat forward
            refused := w.refused <<< UInt64.ofNat forward }
      dirty ({ w with newest := some seq }.set 0 decoded)
    else
      let back := ((newest - seq) &&& 0x7FFFFFFF).toNat
      if 64 ≤ back then w else dirty (w.set back decoded)

end FrameAckWindow

end Ghostframe.Client
