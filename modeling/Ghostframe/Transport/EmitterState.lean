import Ghostframe.Lib.Dict
import Ghostframe.Transport.Parity

/-!
# What the reliable emitter holds

The parts of `ReliableTileEmitter`, each with its own operations:

* `RetransmitCache`: the tile passes not yet acknowledged;
* `H264Cache` and `PadRing`: the H.264 fragments and the padding in flight;
* `EmissionQueue`: the datagrams built and not yet handed to the transport.

The two binary heaps of the source are lists kept in ascending order, so that the
head is what `pop` returns.
-/

namespace Ghostframe.Transport

open Protocol

/-! ### Wire sequence numbers -/

/-- The per-session counter behind every `wire_seq`. -/
structure WireSeqAllocator where
  next : WireSeq := 0
  deriving DecidableEq

namespace WireSeqAllocator

variable (a : WireSeqAllocator)

/-- The number `allocate` would hand out. -/
def peek : WireSeq := if a.next = noAck then 0 else a.next

/-- The counter after one allocation. -/
def advance : WireSeqAllocator := ⟨a.peek + 1⟩

/-- `allocate`: the next number, which is never `NO_ACK`. -/
def allocate : WireSeqAllocator × WireSeq := (a.advance, a.peek)

end WireSeqAllocator

/-! ### The round-trip estimator and the probe timeout -/

def maxAckDelay : Duration := fromMillis 5
def granularity : Duration := fromMillis 1
def initialRtt : Duration := fromMillis 333
def maxBackoffExp : ℕ := 16

/-- `Duration::MAX`, in nanoseconds. -/
def durationMax : Duration := (2 ^ 64 - 1) * 1000000000 + 999999999

/-- Smoothed round-trip time, its variance, the minimum, and the backoff of the probe timeout. -/
structure RttEstimator where
  minRtt : Option Duration := none
  srtt : Duration := initialRtt
  rttvar : Duration := initialRtt / 2
  latestRtt : Duration := 0
  sampled : Bool := false
  samples : ℕ := 0
  maxAckDelay : Duration := Transport.maxAckDelay
  ptoCount : ℕ := 0
  nextCountAt : Option Instant := none
  deriving DecidableEq

namespace RttEstimator

variable (r : RttEstimator)

/-- `on_ack`: the path delivers, so the backoff ends. -/
def onAck : RttEstimator := { r with ptoCount := 0, nextCountAt := none }

/-- `on_sample`: the first sample sets the average and its variance, later ones are smoothed in. -/
def onSample (rtt : Duration) : RttEstimator :=
  let r1 : RttEstimator :=
    { r with
      latestRtt := rtt
      samples := r.samples + 1
      minRtt := some (r.minRtt.elim rtt fun m => min m rtt) }
  let r2 : RttEstimator :=
    if r1.sampled = false then { r1 with srtt := rtt, rttvar := rtt / 2, sampled := true }
    else
      let dev := max r1.srtt rtt - min r1.srtt rtt
      { r1 with rttvar := (r1.rttvar * 3 + dev) / 4, srtt := (r1.srtt * 7 + rtt) / 8 }
  r2.onAck

/-- `pto_interval`: the timeout, doubled `backoff` times. -/
def ptoInterval (backoff : ℕ) : Duration :=
  min ((r.srtt + max (r.rttvar * 4) granularity + r.maxAckDelay) * 2 ^ min backoff maxBackoffExp)
    durationMax

/-- `on_pto_fire`: an expiry counts once for each interval. -/
def onPtoFire (now : Instant) : RttEstimator :=
  if r.nextCountAt.any fun t => decide (now < t) then r
  else
    { r with
      ptoCount := min (r.ptoCount + 1) (2 ^ 32 - 1)
      nextCountAt := some (now + r.ptoInterval 0) }

end RttEstimator

/-- The process-wide settings the emitter reads: `EmitterConfig` and the `NO_RTO` switch. -/
structure EmitterConfig where
  rtoBackoffMax : Duration := fromSecs 5
  noRto : Bool := false
  deriving DecidableEq

/-- `pto_for_attempt`: the probe timeout after a number of attempts, held to a ceiling. -/
def ptoForAttempt (cfg : EmitterConfig) (rtt : RttEstimator) (attempts : ℕ) : Duration :=
  min (rtt.ptoInterval (min attempts 8)) cfg.rtoBackoffMax

/-! ### The retransmit cache -/

/-- The probe cluster a datagram was sent for. -/
structure ProbeTag where
  id : ℤ
  minProbes : ℤ
  minBytes : ℤ
  bytesSentBefore : ℤ
  deriving DecidableEq

/-- What is kept of one pass, or of one H.264 fragment, until it is acknowledged. -/
structure CacheEntry where
  datagram : Bytes
  queuedAt : Instant
  firstSentAt : Instant
  lastSentAt : Instant
  attempts : ℕ
  lossAttempts : ℕ
  latestWs : WireSeq
  probe : Option ProbeTag
  deriving DecidableEq

/-- `u8::saturating_add(1)`, on the attempt counters. -/
def satSucc (attempts : ℕ) : ℕ := min (attempts + 1) 255

/-- The entry of a first transmission. -/
def CacheEntry.fresh (datagram : Bytes) (queuedAt now : Instant) (ws : WireSeq)
    (probe : Option ProbeTag) : CacheEntry where
  datagram := datagram
  queuedAt := queuedAt
  firstSentAt := now
  lastSentAt := now
  attempts := 0
  lossAttempts := 0
  latestWs := ws
  probe := probe

/-- A resend leaves the probe cluster and becomes the newest transmission. -/
def CacheEntry.resent (e : CacheEntry) (ws : WireSeq) (now : Instant) : CacheEntry :=
  { e with attempts := satSucc e.attempts, lastSentAt := now, latestWs := ws, probe := none }

/-- A resend by the loss path counts towards giving up on verdicts. -/
def CacheEntry.lossResent (e : CacheEntry) (ws : WireSeq) (now : Instant) : CacheEntry :=
  { e.resent ws now with lossAttempts := satSucc e.lossAttempts }

/-- Where a pass is on the screen, without the frame it was sent in. -/
abbrev PassSlot := UInt8 × UInt8 × UInt8

/-- The slot of a key. -/
def EmitKey.slot (k : EmitKey) : PassSlot := (k.tileX, k.tileY, k.passIdx)

/-- The tile of a key. -/
def EmitKey.tile (k : EmitKey) : UInt8 × UInt8 := (k.tileX, k.tileY)

/-- The passes not yet acknowledged, with the two indexes a NACK and a cancellation go through. -/
structure RetransmitCache where
  entries : Dict EmitKey CacheEntry := Dict.empty
  byContent : Dict PassSlot EmitKey := Dict.empty
  byTile : Dict (UInt8 × UInt8) (List EmitKey) := Dict.empty
  bytes : ℕ := 0
  deriving DecidableEq

namespace RetransmitCache

variable (c : RetransmitCache)

def len : ℕ := c.entries.size

def get (c : RetransmitCache) (k : EmitKey) : Option CacheEntry := c.entries.get? k

variable (k : EmitKey)

/-- Write through `get_mut`; the datagram, and so the byte count, stays. -/
def set (e : CacheEntry) : RetransmitCache :=
  { c with entries := c.entries.insert k e }

/-- `insert`: a key cached again is already indexed under its tile. -/
def insert (c : RetransmitCache) (k : EmitKey) (e : CacheEntry) : RetransmitCache where
  entries := c.entries.insert k e
  byContent := c.byContent.insert k.slot k
  byTile :=
    if c.entries.contains k then c.byTile
    else c.byTile.insert k.tile ((c.byTile.get? k.tile).getD [] ++ [k])
  bytes := c.bytes + e.datagram.length - ((c.entries.get? k).elim 0 fun old => old.datagram.length)

/-- `lookup_content`: the newest key cached for a pass, whatever its frame. -/
def lookupContent (slot : PassSlot) : Option EmitKey := c.byContent.get? slot

/-- `forget_content`: only while the index still points at the key. -/
def forgetContent : RetransmitCache :=
  if c.byContent.get? k.slot = some k then { c with byContent := c.byContent.erase k.slot } else c

/-- The key leaves the list of its tile, and an empty list goes. -/
def forgetTile : RetransmitCache :=
  match c.byTile.get? k.tile with
  | none => c
  | some keys =>
    let kept := keys.filter fun k' => k' ≠ k
    { c with
      byTile := if kept.isEmpty then c.byTile.erase k.tile else c.byTile.insert k.tile kept }

/-- The entry itself leaves. -/
def dropEntry (e : CacheEntry) : RetransmitCache :=
  { c with entries := c.entries.erase k, bytes := c.bytes - e.datagram.length }

/-- `remove` (`evict`): the key leaves every index. -/
def remove : RetransmitCache :=
  match c.get k with
  | none => c
  | some e => ((c.dropEntry k e).forgetContent k).forgetTile k

/-- One key of a cancelled tile. -/
def cancelKey : RetransmitCache :=
  match c.get k with
  | none => c.forgetContent k
  | some e => (c.dropEntry k e).forgetContent k

/-- `cancel_for_tile`: every entry of the tile goes. -/
def cancelForTile (tile : UInt8 × UInt8) : RetransmitCache :=
  match c.byTile.get? tile with
  | none => c
  | some keys => keys.foldl cancelKey { c with byTile := c.byTile.erase tile }

variable (c : RetransmitCache) (k k' : EmitKey)

theorem get_insert (e : CacheEntry) : (c.insert k e).get k' = if k' = k then some e else c.get k' :=
  Dict.get?_insert _ _ _ _

theorem get_set (e : CacheEntry) : (c.set k e).get k' = if k' = k then some e else c.get k' :=
  Dict.get?_insert _ _ _ _

@[simp] theorem forgetContent_entries : (c.forgetContent k).entries = c.entries := by
  unfold forgetContent
  split_ifs <;> rfl

@[simp] theorem forgetTile_entries : (c.forgetTile k).entries = c.entries := by
  unfold forgetTile
  split <;> rfl

/-- Removing a pass leaves the others as they are. -/
theorem get_remove : (c.remove k).get k' = if k' = k then none else c.get k' := by
  unfold remove
  cases h : c.get k with
  | none =>
    split_ifs with hk
    · rw [hk, h]
    · rfl
  | some e =>
    simp only [get, forgetTile_entries, forgetContent_entries, dropEntry]
    exact Dict.get?_erase _ _ _

end RetransmitCache

/-! ### The H.264 probe cache and the padding in flight -/

/-- The fragments held of one frame. -/
structure FrameEntries where
  isIdr : Bool
  frags : Dict UInt16 CacheEntry := Dict.empty
  deriving DecidableEq

/-- The fragments of the frames not yet fully acknowledged. -/
structure H264Cache where
  frames : Dict UInt32 FrameEntries := Dict.empty
  entries : ℕ := 0
  bytes : ℕ := 0
  deriving DecidableEq

namespace H264Cache

variable (c : H264Cache)

def isEmpty : Bool := c.entries = 0

def get (c : H264Cache) (frameSeq : UInt32) (fragIdx : UInt16) : Option CacheEntry :=
  (c.frames.get? frameSeq).bind fun f => f.frags.get? fragIdx

/-- Whether the frame is an IDR; `none` if nothing of it is held. -/
def isIdr (c : H264Cache) (frameSeq : UInt32) : Option Bool :=
  (c.frames.get? frameSeq).map (·.isIdr)

variable (frameSeq : UInt32)

/-- Write through `get_mut`. -/
def set (fragIdx : UInt16) (e : CacheEntry) : H264Cache :=
  { c with
    frames := c.frames.modify frameSeq fun f => { f with frags := f.frags.insert fragIdx e } }

/-- `insert`: the first fragment of a frame decides whether it is an IDR. -/
def insert (c : H264Cache) (frameSeq : UInt32) (fragIdx : UInt16) (isIdr : Bool)
    (e : CacheEntry) : H264Cache :=
  let frame := (c.frames.get? frameSeq).getD { isIdr := isIdr }
  let old := frame.frags.get? fragIdx
  { frames := c.frames.insert frameSeq { frame with frags := frame.frags.insert fragIdx e }
    entries := if old.isSome then c.entries else c.entries + 1
    bytes := c.bytes + e.datagram.length - old.elim 0 fun o => o.datagram.length }

/-- `remove`: an acknowledged fragment is released, and a frame with none left goes. -/
def remove (fragIdx : UInt16) : H264Cache :=
  match c.frames.get? frameSeq with
  | none => c
  | some f =>
    match f.frags.get? fragIdx with
    | none => c
    | some e =>
      let frags := f.frags.erase fragIdx
      { frames :=
          if frags.size = 0 then c.frames.erase frameSeq
          else c.frames.insert frameSeq { f with frags := frags }
        entries := c.entries - 1
        bytes := c.bytes - e.datagram.length }

/-- The fragments of the frames a test picks, with their bytes. -/
def held (p : UInt32 → Bool) : List CacheEntry :=
  (c.frames.toList.filter fun f => p f.1).flatMap fun f => f.2.frags.toList.map Prod.snd

/-- Forget the frames a test picks. -/
def dropWhere (p : UInt32 → Bool) : H264Cache where
  frames := c.frames.retain fun f _ => !p f
  entries := c.entries - (c.held p).length
  bytes := c.bytes - ((c.held p).map fun e => e.datagram.length).sum

/-- `drop_before`: an IDR supersedes every older frame. -/
def dropBefore : H264Cache := c.dropWhere (· < frameSeq)

/-- `drop_frame`. -/
def dropFrame : H264Cache := c.dropWhere (· == frameSeq)

/-- `drop_from`: the frames from `frameSeq` on chain from one that will not be decoded. -/
def dropFrom : H264Cache := c.dropWhere (frameSeq ≤ ·)

end H264Cache

/-- One padding datagram in flight. -/
structure PadEntry where
  probe : ProbeTag
  queuedAt : Instant
  len : ℕ
  deriving DecidableEq

/-- Most padding datagrams held at once (`PAD_RING_CAP`). -/
def padRingCap : ℕ := 512

/-- The probe padding in flight. -/
structure PadRing where
  entries : Dict WireSeq PadEntry := Dict.empty
  order : List WireSeq := []
  bytes : ℕ := 0
  deriving DecidableEq

namespace PadRing

/-- `remove`: the padding was acknowledged. -/
def remove (p : PadRing) (ws : WireSeq) : PadRing :=
  match p.entries.get? ws with
  | none => p
  | some e => { p with entries := p.entries.erase ws, bytes := p.bytes - e.len }

/-- The loop of `insert`: the oldest padding goes while the ring is full. -/
def makeRoom : List WireSeq → PadRing → PadRing
  | [], p => p
  | old :: rest, p =>
    if p.entries.size ≥ padRingCap then makeRoom rest ({ p with order := rest }.remove old) else p

def insert (p : PadRing) (ws : WireSeq) (e : PadEntry) : PadRing :=
  let p1 := makeRoom p.order p
  match p1.entries.get? ws with
  | some old =>
    { p1 with entries := p1.entries.insert ws e, bytes := p1.bytes + e.len - old.len }
  | none =>
    { entries := p1.entries.insert ws e, order := p1.order ++ [ws], bytes := p1.bytes + e.len }

end PadRing

/-! ### The emission queue -/

/-- What a datagram on the wire is for. -/
inductive WireClass
  | critical
  | refinement
  | nackRepair
  | lossRetransmit
  | schedulerRetry
  | parity
  | h264
  | control
  deriving DecidableEq

/-- Highest pass of the critical tier (`CRITICAL_PASS_MAX`). -/
def criticalPassMax : UInt8 := 3

/-- `for_first_send`. -/
def WireClass.forFirstSend (passIdx : UInt8) : WireClass :=
  if passIdx ≤ criticalPassMax then .critical else .refinement

/-- A datagram waiting for the transport. -/
inductive Emission
  | source (bytes : Bytes) (cls : WireClass)
  | parity (bytes : Bytes) (groupFirst : WireSeq)
  deriving DecidableEq

/-- An H.264 frame datagram: long enough for a frame header, and no tile datagram. -/
def isFrameDatagram (bytes : Bytes) : Bool :=
  bytes.length ≥ frameHeaderSize && bytes.headD 0 &&& 0x80 == 0

/-- `frame_len`: what an emission adds to the frame backlog. -/
def Emission.frameLen : Emission → ℕ
  | .source b _ => if isFrameDatagram b then b.length else 0
  | .parity _ _ => 0

/-- Idle time after which the pending parity is flushed (`END_OF_STREAM_PARITY_FLUSH_MS`). -/
def endOfStreamParityFlush : Duration := fromMillis 5

/-- Ascending `(emit_after, bytes)`, the order of the parity heap. -/
def parityBefore (p q : WireSeq × Bytes) : Prop := p.1 < q.1 ∨ (p.1 = q.1 ∧ ¬q.2 < p.2)

instance (p q : WireSeq × Bytes) : Decidable (parityBefore p q) :=
  inferInstanceAs (Decidable (_ ∨ _))

/-- The output queue, with the parity that is still held back. -/
structure EmissionQueue where
  queue : List Emission := []
  frameBytes : ℕ := 0
  pendingParity : List (WireSeq × Bytes) := []
  endOfStreamIdleSince : Option Instant := none
  deriving DecidableEq

namespace EmissionQueue

variable (q : EmissionQueue)

/-- `push_source`. -/
def pushSource (bytes : Bytes) (cls : WireClass) : EmissionQueue :=
  { q with
    queue := q.queue ++ [.source bytes cls]
    frameBytes := q.frameBytes + (Emission.source bytes cls).frameLen
    endOfStreamIdleSince := none }

/-- `push_front`: a refused emission goes back to the head. -/
def pushFront (e : Emission) : EmissionQueue :=
  { q with
    queue := e :: q.queue
    frameBytes := q.frameBytes + e.frameLen
    endOfStreamIdleSince := none }

/-- `schedule_parity`: sent once the allocator has reached `emitAfter`. -/
def scheduleParity (emitAfter : WireSeq) (bytes : Bytes) : EmissionQueue :=
  { q with pendingParity := q.pendingParity.orderedInsert parityBefore (emitAfter, bytes) }

/-- A parity whose time has come joins the queue, under the first number of its group. -/
def promoted (p : WireSeq × Bytes) : Emission :=
  .parity p.2 (p.1 - .ofNat parityInterleaveOffset)

/-- The promotion loop of `pop`. -/
def promote (nextWireSeq : WireSeq) : EmissionQueue :=
  { q with
    queue := q.queue ++ (q.pendingParity.takeWhile fun p => p.1 ≤ nextWireSeq).map promoted
    pendingParity := q.pendingParity.dropWhile fun p => p.1 ≤ nextWireSeq }

/-- `maybe_flush_pending`: the queue has been dry long enough to flush every parity. -/
def maybeFlushPending (now : Instant) : EmissionQueue :=
  match q.endOfStreamIdleSince with
  | none => q
  | some idleSince =>
    if now - idleSince < endOfStreamParityFlush then q
    else
      { q with
        queue := q.queue ++ q.pendingParity.map promoted
        pendingParity := []
        endOfStreamIdleSince := none }

/-- `pop`: the next emission. -/
def pop (nextWireSeq : WireSeq) (now : Instant) : EmissionQueue × Option Emission :=
  let q1 := (q.promote nextWireSeq).maybeFlushPending now
  match q1.queue with
  | e :: rest =>
    ({ q1 with
        queue := rest
        frameBytes := q1.frameBytes - e.frameLen
        endOfStreamIdleSince := none }, some e)
  | [] =>
    if q1.pendingParity ≠ [] ∧ q1.endOfStreamIdleSince = none then
      ({ q1 with endOfStreamIdleSince := some now }, none)
    else (q1, none)

/-- A queued frame datagram of a frame that is given up. -/
def doomedEmission (doomed : UInt32 → Bool) : Emission → Bool
  | .source b _ => isFrameDatagram b && doomed (be32At b 0)
  | .parity _ _ => false

/-- `purge_frames`. -/
def purgeFrames (doomed : UInt32 → Bool) : EmissionQueue :=
  { q with
    queue := q.queue.filter fun e => !doomedEmission doomed e
    frameBytes :=
      q.frameBytes - ((q.queue.filter (doomedEmission doomed)).map Emission.frameLen).sum }

end EmissionQueue

end Ghostframe.Transport
