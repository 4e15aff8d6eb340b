import Ghostframe.Transport.EmitterState

/-!
# The reliable tile emitter

`ReliableTileEmitter` numbers every datagram it sends, keeps each until it is
acknowledged, and decides what is sent again.

* `onNack`, `requestRetransmit`, `takeDueDeferred`: who asks for a repair;
* `tickBudgeted`: the repairs that the budget lets out.

Counters, the attribution of resends to their cause and the generation check
(`stats`, `resend_origin`, `latest_tile_generation`) only measure and are left out.
-/

namespace Ghostframe.Transport

open Protocol

/-- One datagram as it went on the wire. -/
structure EmittedDatagram where
  wireSeq : WireSeq
  emitUs : ℕ
  wireBytes : ℕ
  content : Content
  deriving DecidableEq

/-- Who asked for a retransmission. -/
inductive RetxCause
  | loss
  | probe
  deriving DecidableEq

/-- A pass a verdict declined to resend, waiting for its own deadline. -/
structure DeferredPass where
  key : Content
  judgedWs : WireSeq
  due : Instant
  deriving DecidableEq

/-- Ascending `(due, judged_ws)`, the order of the deferred heap. -/
def deferredBefore (d d' : DeferredPass) : Prop :=
  d.due < d'.due ∨ (d.due = d'.due ∧ d.judgedWs ≤ d'.judgedWs)

instance (d d' : DeferredPass) : Decidable (deferredBefore d d') :=
  inferInstanceAs (Decidable (_ ∨ _))

/-- What became of a request to retransmit. -/
inductive RetxRequest
  | queued
  | contentGone
  | newerInFlight
  | alreadyQueued
  | disabled
  | notRetransmitted
  | deferred
  deriving DecidableEq

/-- Resends of one pass after which a verdict leaves it to the probe (`LOSS_RETX_MAX_ATTEMPTS`). -/
def lossRetxMaxAttempts : ℕ := 3

/-- The emitter's state. -/
structure ReliableTileEmitter where
  cache : RetransmitCache := {}
  h264 : H264Cache := {}
  pads : PadRing := {}
  alloc : WireSeqAllocator := {}
  queue : EmissionQueue := {}
  group : GroupBuilder := .new fecGroupSizeK
  tileFec : Bool := false
  rtt : RttEstimator := {}
  lastAckAt : Option Instant := none
  latestDepartureAt : Option Instant := none
  lastPtoFireAt : Option Instant := none
  timeBase : Instant
  transmissions : List EmittedDatagram := []
  pendingNacks : List EmitKey := []
  pendingNackSet : Finset EmitKey := ∅
  pendingLoss : List (Content × RetxCause × WireSeq) := []
  pendingLossSet : Finset Content := ∅
  deferred : List DeferredPass := []
  wireOverhead : ℕ := 0
  deriving DecidableEq

namespace ReliableTileEmitter

/-- `ReliableTileEmitter::new`. -/
def new (now : Instant) : ReliableTileEmitter := { timeBase := now }

variable (e : ReliableTileEmitter)

/-- `set_tile_fec`. -/
def setTileFec (on : Bool) : ReliableTileEmitter :=
  { e with tileFec := on }

/-- `emit_us64`: microseconds since the emitter was made. -/
def emitUs64 (now : Instant) : ℕ := asMicros (now - e.timeBase)

/-! ### Stamps -/

/-- A tile datagram long enough for the emit time, which goes into bytes 12 to 15. -/
def takesEmitUs (bytes : Bytes) : Bool := 16 ≤ bytes.length && bytes.headD 0 &&& 0x80 != 0

/-- The number, if there is room for it. -/
def stampSeq (bytes : Bytes) (ws : WireSeq) : Bytes :=
  if 12 ≤ bytes.length then stampWireSeq bytes ws else bytes

/-- The number, and for a tile datagram the low 32 bits of the emit time. -/
def stampTile (bytes : Bytes) (ws : WireSeq) (emitUs : ℕ) : Bytes :=
  let b := stampSeq bytes ws
  if takesEmitUs b then b.take 12 ++ be32 (.ofNat emitUs) ++ b.drop 16 else b

/-- The emit time the ledger is told: zero for a datagram without the stamp. -/
def stampedEmitUs (bytes : Bytes) (emitUs : ℕ) : ℕ := if takesEmitUs bytes then emitUs else 0

/-- The pad bit: the client acknowledges the datagram and discards it. -/
def stampPad (template : Bytes) (ws : WireSeq) : Bytes :=
  if 16 < template.length then
    (stampWireSeq template ws).set 16 ((stampWireSeq template ws).getD 16 0 ||| frameFlagPad)
  else template

theorem length_stampSeq (bytes : Bytes) (ws : WireSeq) :
    (stampSeq bytes ws).length = bytes.length := by
  unfold stampSeq
  split_ifs with h
  · simp only [stampWireSeq, List.length_append, List.length_take, List.length_drop, be32,
      List.length_cons, List.length_nil]
    omega
  · rfl

theorem length_stampTile (bytes : Bytes) (ws : WireSeq) (emitUs : ℕ) :
    (stampTile bytes ws emitUs).length = bytes.length := by
  unfold stampTile
  simp only
  split_ifs with h
  · have hlen : 16 ≤ (stampSeq bytes ws).length := by
      unfold takesEmitUs at h
      simp only [Bool.and_eq_true, decide_eq_true_eq] at h
      exact h.1
    rw [← length_stampSeq bytes ws]
    simp only [List.length_append, List.length_take, List.length_drop, be32, List.length_cons,
      List.length_nil]
    omega
  · exact length_stampSeq bytes ws

/-! ### Putting a datagram on the wire -/

/-- A full group schedules its parity behind its first number. -/
def scheduleGroup (q : EmissionQueue) : Option GroupResult → EmissionQueue
  | none => q
  | some r =>
    q.scheduleParity (r.groupFirstWireSeq + .ofNat parityInterleaveOffset) r.envelope.encode

/-- `feed_group`: the transmission joins the parity group in progress. -/
def feedGroup (ws : WireSeq) (bytes : Bytes) : ReliableTileEmitter :=
  if e.tileFec = false then e
  else
    { e with
      group := (e.group.add ws bytes).1
      queue := scheduleGroup e.queue (e.group.add ws bytes).2 }

@[simp] theorem feedGroup_queues (ws : WireSeq) (bytes : Bytes) :
    (e.feedGroup ws bytes).alloc = e.alloc ∧ (e.feedGroup ws bytes).cache = e.cache ∧
      (e.feedGroup ws bytes).transmissions = e.transmissions ∧
      (e.feedGroup ws bytes).pendingNacks = e.pendingNacks ∧
      (e.feedGroup ws bytes).pendingNackSet = e.pendingNackSet ∧
      (e.feedGroup ws bytes).pendingLoss = e.pendingLoss ∧
      (e.feedGroup ws bytes).pendingLossSet = e.pendingLossSet ∧
      (e.feedGroup ws bytes).deferred = e.deferred := by
  unfold feedGroup
  split_ifs <;> exact ⟨rfl, rfl, rfl, rfl, rfl, rfl, rfl, rfl⟩

/-- The transmission is noted for the ledger and its bytes are queued. -/
def putOnWire (d : EmittedDatagram) (bytes : Bytes) (cls : WireClass) : ReliableTileEmitter :=
  { e with transmissions := e.transmissions ++ [d], queue := e.queue.pushSource bytes cls }

/-- `submit_one_as`: the first transmission of a pass, or the scheduler's retry of it. -/
def submitOneAs (key : EmitKey) (source : Bytes) (queuedAt : Instant)
    (probe : Option ProbeTag) (now : Instant) (schedulerRetry : Bool) : ReliableTileEmitter :=
  let ws := e.alloc.peek
  let bytes := stampTile source ws (e.emitUs64 now)
  let e1 :=
    { e with
      alloc := e.alloc.advance
      cache := e.cache.insert key (.fresh bytes queuedAt now ws probe) }
  (e1.feedGroup ws bytes).putOnWire
    ⟨ws, stampedEmitUs bytes (e.emitUs64 now), bytes.length, .tile key⟩ bytes
    (if schedulerRetry then .schedulerRetry else .forFirstSend key.passIdx)

/-- `submit_one`. -/
def submitOne (key : EmitKey) (source : Bytes) (queuedAt : Instant)
    (probe : Option ProbeTag) (now : Instant) : ReliableTileEmitter :=
  e.submitOneAs key source queuedAt probe now false

/-- One fragment handed to `submit_h264_fragment`. -/
structure H264Submit where
  frameSeq : UInt32
  fragIdx : UInt16
  isIdr : Bool
  bytes : Bytes
  queuedAt : Instant
  probe : Option ProbeTag
  deriving DecidableEq

/-- `submit_h264_fragment`: numbered like a tile pass, and not fed to the parity group. -/
def submitH264Fragment (frag : H264Submit) (now : Instant) : ReliableTileEmitter :=
  let ws := e.alloc.peek
  let bytes := stampSeq frag.bytes ws
  let e1 :=
    { e with
      alloc := e.alloc.advance
      h264 :=
        e.h264.insert frag.frameSeq frag.fragIdx frag.isIdr
          (.fresh bytes frag.queuedAt now ws frag.probe) }
  e1.putOnWire ⟨ws, e.emitUs64 now, bytes.length, .h264Frag frag.frameSeq frag.fragIdx⟩ bytes .h264

/-- `submit_h264_pad`: a repeated datagram that only measures the path. -/
def submitH264Pad (template : Bytes) (probe : ProbeTag) (now : Instant) : ReliableTileEmitter :=
  let ws := e.alloc.peek
  let bytes := stampPad template ws
  let e1 :=
    { e with
      alloc := e.alloc.advance
      pads := e.pads.insert ws ⟨probe, now, bytes.length⟩ }
  e1.putOnWire ⟨ws, e.emitUs64 now, bytes.length, .pad ws⟩ bytes .h264

/-! ### Acknowledgements, departures and the probe timer -/

/-- `on_ack`: the acknowledged passes leave the cache. -/
def onAck (keys : List EmitKey) : ReliableTileEmitter :=
  { e with cache := keys.foldl RetransmitCache.remove e.cache }

/-- `on_h264_ack`. -/
def onH264Ack (frameSeq : UInt32) (fragIdx : UInt16) : ReliableTileEmitter :=
  { e with h264 := e.h264.remove frameSeq fragIdx }

/-- `note_ack`: any acknowledgement ends the backoff and restarts the probe timer. -/
def noteAck (receivedAt : Instant) : ReliableTileEmitter :=
  { e with
    rtt := e.rtt.onAck
    lastAckAt := some (e.lastAckAt.elim receivedAt fun t => max t receivedAt) }

/-- `on_departed`: the probe timeout runs from the newest departure. -/
def onDeparted (at_ : Instant) : ReliableTileEmitter :=
  { e with latestDepartureAt := some (e.latestDepartureAt.elim at_ fun t => max t at_) }

/-- `pto_deadline`: `none` while nothing is cached or nothing has departed. -/
def ptoDeadline (cfg : EmitterConfig) (e : ReliableTileEmitter) : Option Instant :=
  if e.cache.len = 0 ∧ e.h264.isEmpty then none
  else
    e.latestDepartureAt.map fun departed =>
      let base := max (max departed (e.lastAckAt.getD departed)) (e.lastPtoFireAt.getD departed)
      base + ptoForAttempt cfg e.rtt (min e.rtt.ptoCount 8)

/-- `pto_due`. -/
def ptoDue (cfg : EmitterConfig) (e : ReliableTileEmitter) (now : Instant) : Bool :=
  (e.ptoDeadline cfg).any fun d => decide (d ≤ now)

/-- `note_pto_fire`. -/
def notePtoFire (now : Instant) : ReliableTileEmitter :=
  { e with rtt := e.rtt.onPtoFire now, lastPtoFireAt := some now }

/-- `cancel_for_tile`: the tile's content was replaced. -/
def cancelForTile (e : ReliableTileEmitter) (tile : UInt8 × UInt8) : ReliableTileEmitter :=
  { e with cache := e.cache.cancelForTile tile }

/-- `supersede_h264_before`: an IDR makes the older frames moot, queued ones included. -/
def supersedeH264Before (frameSeq : UInt32) : ReliableTileEmitter :=
  { e with h264 := e.h264.dropBefore frameSeq, queue := e.queue.purgeFrames (· < frameSeq) }

/-- `take_transmissions`. -/
def takeTransmissions : ReliableTileEmitter × List EmittedDatagram :=
  ({ e with transmissions := [] }, e.transmissions)

/-- `next_emission`. -/
def nextEmission (now : Instant) : ReliableTileEmitter × Option Emission :=
  ({ e with queue := (e.queue.pop e.alloc.peek now).1 }, (e.queue.pop e.alloc.peek now).2)

/-- `settle_emission`: an emission the transport refused goes back to the head of the queue. -/
def settleEmission (emission : Emission) (accepted : Bool) : ReliableTileEmitter :=
  if accepted then e else { e with queue := e.queue.pushFront emission }

/-- One turn of `drain`: the next emission is offered to the transport. -/
def offerNext (now : Instant) (accepted : Bool) : ReliableTileEmitter :=
  match (e.nextEmission now).2 with
  | none => (e.nextEmission now).1
  | some emission => (e.nextEmission now).1.settleEmission emission accepted

/-! ### Asking for a repair -/

/-- A NACK names the exact pass, or else the newest cached one of its place on the screen. -/
def resolveNack (nacked : EmitKey) : EmitKey :=
  if (e.cache.get nacked).isSome then nacked else (e.cache.lookupContent nacked.slot).getD nacked

/-- The pass joins the NACK queue. -/
def queueNack (key : EmitKey) : ReliableTileEmitter :=
  { e with
    pendingNackSet := insert key e.pendingNackSet
    pendingNacks := e.pendingNacks ++ [key] }

/-- One entry of `on_nack`: queued if the pass is cached and not waiting already. -/
def nackOne (nacked : EmitKey) : ReliableTileEmitter :=
  let key := e.resolveNack nacked
  if (e.cache.get key).isNone ∨ key ∈ e.pendingNackSet then e else e.queueNack key

/-- `on_nack`. -/
def onNack (entries : List EmitKey) : ReliableTileEmitter :=
  entries.foldl nackOne e

/-- The cached entry of a content, whichever cache holds it; padding has none. -/
def entryOf : Content → Option CacheEntry
  | .tile key => e.cache.get key
  | .pad _ => none
  | .h264Frag frameSeq fragIdx => e.h264.get frameSeq fragIdx

/-- A fragment of a frame known not to be an IDR. -/
def isPFrame : Content → Bool
  | .h264Frag frameSeq _ => e.h264.isIdr frameSeq = some false
  | _ => false

/-- A repair of the content waits for budget already. -/
def waiting (content : Content) : Bool :=
  content ∈ e.pendingLossSet || content.tile?.any fun k => k ∈ e.pendingNackSet

/-- `classify_retx`: what a request to retransmit would do. -/
def classifyRetx (content : Content) (ws : WireSeq) (cause : RetxCause) : RetxRequest :=
  match e.entryOf content with
  | none => .contentGone
  | some entry =>
    if entry.latestWs ≠ ws then .newerInFlight
    else if e.waiting content then .alreadyQueued
    else if e.isPFrame content ∧ cause = .loss then .notRetransmitted
    else if cause = .loss ∧ entry.lossAttempts ≥ lossRetxMaxAttempts then .deferred
    else .queued

/-- The request joins the loss queue. -/
def queueLoss (content : Content) (cause : RetxCause) (ws : WireSeq) : ReliableTileEmitter :=
  { e with
    pendingLoss := e.pendingLoss ++ [(content, cause, ws)]
    pendingLossSet := insert content e.pendingLossSet }

/-- `defer`: the pass waits for its own deadline, which doubles with each resend. -/
def defer (cfg : EmitterConfig) (e : ReliableTileEmitter) (content : Content)
    (judgedWs : WireSeq) : ReliableTileEmitter :=
  match e.entryOf content with
  | none => e
  | some entry =>
    let due := entry.lastSentAt + ptoForAttempt cfg e.rtt entry.lossAttempts
    { e with deferred := e.deferred.orderedInsert deferredBefore ⟨content, judgedWs, due⟩ }

/-- What a request does to the queues. -/
def applyRequest (cfg : EmitterConfig) (e : ReliableTileEmitter) (content : Content)
    (ws : WireSeq) (cause : RetxCause) : RetxRequest → ReliableTileEmitter
  | .queued => e.queueLoss content cause ws
  | .deferred => e.defer cfg content ws
  | _ => e

/-- `request_retransmit`. -/
def requestRetransmit (cfg : EmitterConfig) (e : ReliableTileEmitter) (content : Content)
    (ws : WireSeq) (cause : RetxCause) : ReliableTileEmitter × RetxRequest :=
  if cfg.noRto then (e, .disabled)
  else
    (e.applyRequest cfg content ws cause (e.classifyRetx content ws cause),
      e.classifyRetx content ws cause)

/-- The judged transmission is still the newest of its content. -/
def isNewest (content : Content) (judgedWs : WireSeq) : Bool :=
  (e.entryOf content).any fun entry => decide (entry.latestWs = judgedWs)

/-- The loop of `take_due_deferred`, over the deferred entries in order. -/
def takeDue (e : ReliableTileEmitter) (now : Instant) (n : ℕ) :
    List DeferredPass → List (Content × WireSeq) → List DeferredPass × List (Content × WireSeq)
  | [], out => ([], out)
  | d :: rest, out =>
    if out.length < n ∧ d.due ≤ now then
      -- an entry that something else has resent since is dropped as it surfaces
      e.takeDue now n rest
        (if e.isNewest d.key d.judgedWs then out ++ [(d.key, d.judgedWs)] else out)
    else (d :: rest, out)

/-- `take_due_deferred`. -/
def takeDueDeferred (now : Instant) (n : ℕ) : ReliableTileEmitter × List (Content × WireSeq) :=
  ({ e with deferred := (e.takeDue now n e.deferred []).1 }, (e.takeDue now n e.deferred []).2)

/-! ### Sending repairs under a budget -/

/-- The counter after a retransmission, which takes a number only if there is room for it. -/
def retxAlloc (datagram : Bytes) : WireSeqAllocator :=
  if 12 ≤ datagram.length then e.alloc.advance else e.alloc

/-- The number of a retransmission. -/
def retxSeq (datagram : Bytes) : WireSeq :=
  if 12 ≤ datagram.length then e.alloc.peek else 0

/-- A retransmission joins the parity group exactly if it took a number. -/
def feedRetx (ws : WireSeq) (bytes : Bytes) : ReliableTileEmitter :=
  if 12 ≤ bytes.length then e.feedGroup ws bytes else e

/-- The body of `tick_nacks_budgeted` for a cached pass. -/
def nackResend (key : EmitKey) (entry : CacheEntry) (now : Instant) : ReliableTileEmitter :=
  let ws := e.retxSeq entry.datagram
  let bytes := stampTile entry.datagram ws (e.emitUs64 now)
  let e1 :=
    { e with
      alloc := e.retxAlloc entry.datagram
      cache := e.cache.set key (entry.resent ws now) }
  (e1.feedRetx ws bytes).putOnWire ⟨ws, e.emitUs64 now, bytes.length, .tile key⟩ bytes .nackRepair

/-- The body of `tick_loss_budgeted` for a cached pass. -/
def lossResend (key : EmitKey) (entry : CacheEntry) (now : Instant) : ReliableTileEmitter :=
  let ws := e.retxSeq entry.datagram
  let bytes := stampTile entry.datagram ws (e.emitUs64 now)
  let e1 :=
    { e with
      alloc := e.retxAlloc entry.datagram
      cache := e.cache.set key (entry.lossResent ws now) }
  (e1.feedRetx ws bytes).putOnWire
    ⟨ws, stampedEmitUs bytes (e.emitUs64 now), bytes.length, .tile key⟩ bytes .lossRetransmit

/-- The body of `resend_h264_fragment` for a held fragment; a frame datagram has room for the
number, and the source writes it without a length check. -/
def fragResend (frameSeq : UInt32) (fragIdx : UInt16)
    (entry : CacheEntry) (now : Instant) : ReliableTileEmitter :=
  let ws := e.alloc.peek
  let bytes := stampWireSeq entry.datagram ws
  let e1 :=
    { e with
      alloc := e.alloc.advance
      h264 := e.h264.set frameSeq fragIdx (entry.lossResent ws now) }
  e1.putOnWire ⟨ws, e.emitUs64 now, bytes.length, .h264Frag frameSeq fragIdx⟩ bytes .lossRetransmit

/-- What a resend of the entry is billed. -/
def resendCost (entry : CacheEntry) : ℕ :=
  entry.datagram.length + e.wireOverhead

/-- The head of the NACK queue is taken off. -/
def popNack (key : EmitKey) (rest : List EmitKey) : ReliableTileEmitter :=
  { e with pendingNacks := rest, pendingNackSet := e.pendingNackSet.erase key }

/-- The loop of `tick_nacks_budgeted`, over the queue of waiting passes; it answers the count
and the bytes spent. -/
def tickNacks (now : Instant) (maxRetransmits maxBytes : ℕ) :
    List EmitKey → ReliableTileEmitter → ℕ → ℕ → ReliableTileEmitter × ℕ × ℕ
  | [], e, count, spent => (e, count, spent)
  | key :: rest, e, count, spent =>
    if count < maxRetransmits ∧ spent < maxBytes then
      match e.cache.get key with
      | none => tickNacks now maxRetransmits maxBytes rest (e.popNack key rest) count spent
      | some entry =>
        tickNacks now maxRetransmits maxBytes rest ((e.popNack key rest).nackResend key entry now)
          (count + 1) (spent + e.resendCost entry)
    else (e, count, spent)

/-- The head of the loss queue is taken off. -/
def popLoss (content : Content)
    (rest : List (Content × RetxCause × WireSeq)) : ReliableTileEmitter :=
  { e with pendingLoss := rest, pendingLossSet := e.pendingLossSet.erase content }

/-- A resend of a content the loss queue held. -/
def resendContent (entry : CacheEntry) (now : Instant) : Content → ReliableTileEmitter
  | .tile key => e.lossResend key entry now
  | .h264Frag frameSeq fragIdx => e.fragResend frameSeq fragIdx entry now
  | .pad _ => e

/-- The loop of `tick_loss_budgeted`: a request whose content is gone, or has a newer
transmission than the judged one, is dropped. -/
def tickLoss (now : Instant) (maxRetransmits maxBytes : ℕ) :
    List (Content × RetxCause × WireSeq) → ReliableTileEmitter → ℕ → ℕ →
      ReliableTileEmitter × ℕ × ℕ
  | [], e, count, spent => (e, count, spent)
  | (content, _, judgedWs) :: rest, e, count, spent =>
    if count < maxRetransmits ∧ spent < maxBytes then
      match e.entryOf content with
      | none => tickLoss now maxRetransmits maxBytes rest (e.popLoss content rest) count spent
      | some entry =>
        if entry.latestWs ≠ judgedWs then
          tickLoss now maxRetransmits maxBytes rest (e.popLoss content rest) count spent
        else
          tickLoss now maxRetransmits maxBytes rest
            ((e.popLoss content rest).resendContent entry now content)
            (count + 1) (spent + e.resendCost entry)
    else (e, count, spent)

/-- `tick_nacks_budgeted`. -/
def tickNacksBudgeted (now : Instant) (maxRetransmits maxBytes : ℕ)
    (count : ℕ) : ReliableTileEmitter × ℕ × ℕ :=
  tickNacks now maxRetransmits maxBytes e.pendingNacks e count 0

/-- `tick_loss_budgeted`. -/
def tickLossBudgeted (now : Instant) (maxRetransmits maxBytes : ℕ)
    (count : ℕ) : ReliableTileEmitter × ℕ × ℕ :=
  tickLoss now maxRetransmits maxBytes e.pendingLoss e count 0

/-- `tick_budgeted`: NACK repairs first, then the loss path with what is left. -/
def tickBudgeted (now : Instant) (maxRetransmits maxBytes : ℕ) : ReliableTileEmitter × ℕ :=
  let nacks := e.tickNacksBudgeted now maxRetransmits maxBytes 0
  let loss :=
    nacks.1.tickLossBudgeted now maxRetransmits (maxBytes - nacks.2.2) nacks.2.1
  (loss.1, nacks.2.2 + loss.2.2)

end ReliableTileEmitter

end Ghostframe.Transport
