import Ghostframe.Transport.Emitter
import Ghostframe.Transport.LedgerFacts

/-!
# The loss path

What joins the transmission ledger (what is outstanding, in departure order) and
the reliable emitter (what content is still current, and the probe timer).

* `detect`: verdicts of the ledger become requests to retransmit, and the deferred
  passes whose deadline has come are asked for again;
* `probe`: when the probe timeout expires the newest outstanding transmissions are
  asked for, and those whose content is gone leave the ledger.
-/

namespace Ghostframe.Transport

/-- Transmissions a probe sends, and deferred passes resent in one turn (`PROBE_COUNT`). -/
def probeCount : ℕ := 2

/-- Records looked at from the back of the departure order (`PROBE_SCAN`). -/
def probeScan : ℕ := 32

/-- Rounds of a probe while records keep being removed (`PROBE_MAX_ROUNDS`). -/
def probeMaxRounds : ℕ := 32

/-- `time_threshold`: nine eighths of the larger round-trip time. -/
def timeThreshold (rtt : RttEstimator) : Duration := max rtt.srtt rtt.latestRtt * 9 / 8

/-- What a pass of the loss path decided. -/
structure Outcome where
  lost : List (WireSeq × Transmission) := []
  retxQueued : ℕ := 0
  forgotten : List WireSeq := []
  deriving DecidableEq

/-- The two things the loss path joins. -/
structure ReliablePath where
  emitter : ReliableTileEmitter
  ledger : TransmissionLedger
  deriving DecidableEq

namespace ReliablePath

/-- An empty emitter and an empty ledger. -/
def new (now : Instant) (capacity : ℕ) : ReliablePath := ⟨.new now, .new capacity⟩

/-! ### Verdicts -/

/-- One request counted in the outcome if it was queued. -/
def countQueued (out : Outcome) (r : RetxRequest) : Outcome :=
  if r = .queued then { out with retxQueued := out.retxQueued + 1 } else out

variable (cfg : EmitterConfig) (s : ReliableTileEmitter × Outcome)

/-- One verdict of `detect`. -/
def verdictOne (v : LostTransmission) :
    ReliableTileEmitter × Outcome :=
  let r := s.1.requestRetransmit cfg v.2.1.content v.1 .loss
  let out := countQueued s.2 r.2
  (r.1, { out with lost := out.lost ++ [(v.1, v.2.1)] })

/-- One deferred pass of `detect`. -/
def deferredOne
    (d : Content × WireSeq) : ReliableTileEmitter × Outcome :=
  let r := s.1.requestRetransmit cfg d.1 d.2 .probe
  (r.1, countQueued s.2 r.2)

/-- The second loop of `detect`: the deferred passes whose deadline has come. -/
def resendDeferred (now : Instant) :
    ReliableTileEmitter × Outcome :=
  (s.1.takeDueDeferred now probeCount).2.foldl (deferredOne cfg)
    ((s.1.takeDueDeferred now probeCount).1, s.2)

variable (p : ReliablePath) (now : Instant)

/-- The verdicts `detect` acts on. -/
def verdicts : List LostTransmission :=
  (p.ledger.detectLossesAt now (timeThreshold p.emitter.rtt)).2

/-- `detect`. -/
def detect (cfg : EmitterConfig) (p : ReliablePath) (now : Instant) : ReliablePath × Outcome :=
  let judged := (p.verdicts now).foldl (verdictOne cfg) (p.emitter, {})
  let resent := resendDeferred cfg judged now
  (⟨resent.1, (p.ledger.detectLossesAt now (timeThreshold p.emitter.rtt)).1⟩, resent.2)

/-! ### The tail probe -/

/-- An H.264 fragment whose content is gone is forgotten with no verdict. -/
def forgetGone (out : Outcome) (ws : WireSeq) : ReliablePath × Outcome × Bool :=
  let r := p.ledger.forgetOutstanding ws
  if r.2.isSome then (⟨p.emitter, r.1⟩, { out with forgotten := out.forgotten ++ [ws] }, true)
  else (⟨p.emitter, r.1⟩, out, false)

/-- Any other transmission whose content is gone is declared lost on the spot. -/
def loseGone (out : Outcome) (ws : WireSeq) : ReliablePath × Outcome × Bool :=
  let r := p.ledger.declareLostByPto ws
  match r.2 with
  | some tx => (⟨p.emitter, r.1⟩, { out with lost := out.lost ++ [(ws, tx)] }, true)
  | none => (⟨p.emitter, r.1⟩, out, false)

/-- A transmission whose content is gone leaves the ledger; the flag says whether it did. -/
def dropGone (out : Outcome) (ws : WireSeq) (tx : Transmission) : ReliablePath × Outcome × Bool :=
  match tx.content with
  | .h264Frag _ _ => p.forgetGone out ws
  | _ => p.loseGone out ws

/-- One candidate of the probe; the flag says whether a record was removed. -/
def probeOne (cfg : EmitterConfig) (p : ReliablePath) (out : Outcome) (ws : WireSeq)
    (tx : Transmission) : ReliablePath × Outcome × Bool :=
  let r := p.emitter.requestRetransmit cfg tx.content ws .probe
  if r.2 = .contentGone then dropGone ⟨r.1, p.ledger⟩ out ws tx
  else (⟨r.1, p.ledger⟩, countQueued out r.2, false)

/-- One round of candidates; the flag says whether another round follows. -/
def probeRound (cfg : EmitterConfig) :
    List (WireSeq × Transmission) → ReliablePath → Outcome → Bool → ReliablePath × Outcome × Bool
  | [], p, out, removed => (p, out, removed)
  | (ws, tx) :: rest, p, out, removed =>
    if out.retxQueued ≥ probeCount then (p, out, false)
    else
      probeRound cfg rest (probeOne cfg p out ws tx).1 (probeOne cfg p out ws tx).2.1
        (removed || (probeOne cfg p out ws tx).2.2)

/-- The rounds of `probe`: they stop when a round removes nothing, when enough is queued, or when
the scan finds nothing. -/
def probeRounds (cfg : EmitterConfig) : ℕ → ReliablePath → ℕ → Outcome → ReliablePath × Outcome
  | 0, p, _, out => (p, out)
  | n + 1, p, cursor, out =>
    let scan := p.ledger.scanOutstanding cursor probeScan probeScan
    let round := probeRound cfg scan.2.2 ⟨p.emitter, scan.1⟩ out false
    if scan.2.2.isEmpty then (⟨p.emitter, scan.1⟩, out)
    else if round.2.2 = false then (round.1, round.2.1)
    else probeRounds cfg n round.1 scan.2.1 round.2.1

/-- `probe`: `none` while the timeout is not due. -/
def probe (cfg : EmitterConfig) (p : ReliablePath) (now : Instant) :
    ReliablePath × Option Outcome :=
  if p.emitter.ptoDue cfg now = false then (p, none)
  else
    let r := probeRounds cfg probeMaxRounds ⟨p.emitter.notePtoFire now, p.ledger⟩ 0 {}
    (r.1, some r.2)

/-! ### The bridge -/

/-- The ledger record of a transmission that has not departed. -/
def toTransmission (d : EmittedDatagram) : Transmission where
  emitUs := d.emitUs
  wireBytes := d.wireBytes
  content := d.content
  departUs := none
  depIdx := none

/-- One transmission goes on the books. -/
def recordOne (l : TransmissionLedger) (d : EmittedDatagram) :
    TransmissionLedger :=
  l.record d.wireSeq now (toTransmission d)

/-- `record_emitted_transmissions`. -/
def recordTransmissions : ReliablePath where
  emitter := p.emitter.takeTransmissions.1
  ledger := p.emitter.takeTransmissions.2.foldl (recordOne now) p.ledger

/-- `stamp_departure`. -/
def stampDeparture (ws : WireSeq) (at_ : Instant) : ReliablePath where
  emitter := p.emitter.onDeparted at_
  ledger := (p.ledger.markDeparted ws at_ (p.emitter.emitUs64 at_)).1

/-- What a resolved acknowledgement was for. -/
def resolvedContent : Resolution → Content
  | .live tx => tx.content
  | .late tx _ => tx.content

/-- One entry of `resolve_ack_entries`. -/
def resolveOne (minRtt : Duration) (s : ReliablePath × List Content)
    (ws : WireSeq) : ReliablePath × List Content :=
  let r := s.1.ledger.resolveAt ws (some (now, minRtt))
  match r.2 with
  | none => (⟨s.1.emitter, r.1⟩, s.2)
  | some res => (⟨s.1.emitter.noteAck now, r.1⟩, s.2 ++ [resolvedContent res])

/-- What `apply_h264_acks` does to the emitter for one acknowledged content. -/
def releaseH264 (e : ReliableTileEmitter) : Content → ReliableTileEmitter
  | .tile _ => e
  | .h264Frag frameSeq fragIdx => e.onH264Ack frameSeq fragIdx
  | .pad ws => { e with pads := e.pads.remove ws }

/-- What an acknowledgement batch releases: tile passes first, then fragments and padding. -/
def releaseAcked (contents : List Content) : ReliablePath :=
  { p with
    emitter := contents.foldl releaseH264 (p.emitter.onAck (contents.filterMap Content.tile?)) }

/-- `dispatch_ack_datagram`, for the numbers of one batch: all are resolved against the ledger,
then what they carried is released. -/
def dispatchAck (wireSeqs : List WireSeq) (now : Instant) : ReliablePath :=
  let r := wireSeqs.foldl (resolveOne now (p.emitter.rtt.minRtt.getD 0)) (p, [])
  r.1.releaseAcked r.2

end ReliablePath

/-! ### Runs -/

/-- One event at the path. -/
inductive PathOp
  | submitOne (key : EmitKey) (source : Bytes) (queuedAt : Instant) (probe : Option ProbeTag)
      (now : Instant)
  | submitH264Fragment (frag : ReliableTileEmitter.H264Submit) (now : Instant)
  | onNack (entries : List EmitKey)
  | detect (now : Instant)
  | probe (now : Instant)
  | tickBudgeted (now : Instant) (maxRetransmits maxBytes : ℕ)
  | recordTransmissions (now : Instant)
  | stampDeparture (ws : WireSeq) (at_ : Instant)
  | dispatchAck (wireSeqs : List WireSeq) (now : Instant)
  | onSample (rtt : Duration)
  | cancelForTile (tile : UInt8 × UInt8)
  deriving DecidableEq

namespace ReliablePath

/-- The emitter's round-trip estimator takes a sample. -/
def sampleRtt (p : ReliablePath) (rtt : Duration) : ReliablePath :=
  { p with emitter := { p.emitter with rtt := p.emitter.rtt.onSample rtt } }

/-- The path after one event. -/
def step (cfg : EmitterConfig) (p : ReliablePath) : PathOp → ReliablePath
  | .submitOne key source queuedAt probe now =>
    { p with emitter := p.emitter.submitOne key source queuedAt probe now }
  | .submitH264Fragment frag now => { p with emitter := p.emitter.submitH264Fragment frag now }
  | .onNack entries => { p with emitter := p.emitter.onNack entries }
  | .detect now => (p.detect cfg now).1
  | .probe now => (p.probe cfg now).1
  | .tickBudgeted now maxRetransmits maxBytes =>
    { p with emitter := (p.emitter.tickBudgeted now maxRetransmits maxBytes).1 }
  | .recordTransmissions now => p.recordTransmissions now
  | .stampDeparture ws at_ => p.stampDeparture ws at_
  | .dispatchAck wireSeqs now => p.dispatchAck wireSeqs now
  | .onSample rtt => p.sampleRtt rtt
  | .cancelForTile tile => { p with emitter := p.emitter.cancelForTile tile }

end ReliablePath

end Ghostframe.Transport
