import Ghostframe.Codec.PalRle
import Ghostframe.Transport.Emitter
import Ghostframe.Transport.FragmentCoverage
import Ghostframe.Transport.Scheduler

/-!
# The tile path of the server

What `IoBridge` does with a tile: newer content supersedes what is queued and in flight, the passes
are queued, a drain labels them and hands them to the emitter, and an acknowledgement settles them.

The statistics, the tracing and the probe tags of the source change none of this and are left out.
-/

namespace Ghostframe.Transport

open Protocol Codec

/-- The part of `IoBridge` that a tile passes through. -/
structure TileBridge where
  scheduler : Scheduler
  fragmentCoverage : FragmentCoverageMap
  emitter : ReliableTileEmitter
  paletteTable : PaletteTable

/-- The passes of a CDF 5/3 tile as the encoder returns them: the planes that are not empty. -/
structure Cdf53Encoded where
  presentPasses : UInt16
  passes : List (UInt8 × Bytes)
  present_lt : presentPasses.toNat < 2 ^ passSlots
  pass_lt : ∀ q ∈ passes, q.1.toNat < passSlots

namespace SlotMap

/-- `acked_mask`. -/
def ackedMask (m : SlotMap) (x y gen : UInt8) : UInt16 :=
  (((m.slot x y).filter fun t => t.currentGen = gen).map TileSlot.ackedMask).getD 0

/-- `unacked_mask`. -/
def unackedMask (m : SlotMap) (x y gen : UInt8) (present : UInt16) : UInt16 :=
  present &&& ~~~m.ackedMask x y gen

end SlotMap

/-- `refinement_queue_holds_tile`. -/
def Scheduler.refinementQueueHoldsTile (s : Scheduler) (x y : UInt8) : Bool :=
  Scheduler.passIndices.any fun p =>
    ((s.slots.handle x y p).bind s.work.get).any fun w =>
      decide (w.tileX = x ∧ w.tileY = y ∧ w.Active)

namespace TileBridge

/-! ### Superseding -/

variable (b : TileBridge) (x y : UInt8)

/-- `cancel_in_flight_for_tile`. -/
def cancelInFlightForTile : TileBridge :=
  { b with
    emitter := b.emitter.cancelForTile (x, y)
    fragmentCoverage := b.fragmentCoverage.dropCdf53ForTile x y }

variable (t : PaletteTable)

/-- The palette table when one bundled emission fewer is outstanding. -/
def lowerCarrying (id : UInt8) (bundled : Bool) : PaletteTable :=
  if bundled then
    { t with inFlightCarrying := Function.update t.inFlightCarrying id (t.inFlightCarrying id - 1) }
  else t

/-- The palette table with one reference given back, if any is held. -/
def giveBack (id : UInt8) : PaletteTable :=
  if 0 < t.refCount id then t.release id else t

/-- What one superseded item gives back. -/
def settleOne (s : ResolvedTileWork) : PaletteTable :=
  match s.paletteId with
  | none => t
  | some id => giveBack (lowerCarrying t id s.paletteBundled) id

/-- `settle_superseded_palettes`. -/
def settleSupersededPalettes (superseded : List ResolvedTileWork) : TileBridge :=
  { b with
    paletteTable := superseded.foldl settleOne b.paletteTable
    fragmentCoverage :=
      if superseded.any fun s => s.paletteId.isSome then
        b.fragmentCoverage.unbundlePalrleForTile x y
      else b.fragmentCoverage }

/-- `bump_generation_collecting`, and the palettes of what it superseded settled. -/
def bumpGeneration : TileBridge :=
  let bumped := b.scheduler.bumpGenerationCollecting x y
  { b with scheduler := bumped.1 }.settleSupersededPalettes x y bumped.2.2

/-! ### Content enters -/

/-- The work item of a single-pass tile. -/
def singlePass (x y gen : UInt8) (codec : Codec) (payload : Bytes) (now : Instant) : TileWork where
  tileX := x
  tileY := y
  generation := gen
  passIdx := 0
  totalPasses := 1
  codec := codec
  payload := payload
  queuedAt := now
  lastSentAt := none
  state := .pending

/-- The body of the dirty loop of `dispatch_dirty_tiles_via_scheduler`, for a tile that is sent in
one pass. -/
def dispatchTile (codec : Codec) (payload : Bytes) (now : Instant) : TileBridge :=
  let t := (b.cancelInFlightForTile x y).bumpGeneration x y
  { t with
    scheduler :=
      t.scheduler.enqueueAt
        (singlePass x y (b.scheduler.bumpGenerationCollecting x y).2.1 codec payload now) now }

/-- The same for a tile left out of the loop's end, and the first half of
`commit_cdf53_fallback`. -/
def supersedeTile : TileBridge :=
  (b.cancelInFlightForTile x y).bumpGeneration x y

variable (enc : Cdf53Encoded)

/-- `enqueue_cdf53_generation`. The coverage of the older passes is not dropped here. -/
def enqueueCdf53Generation (now : Instant) : TileBridge :=
  let t := { b with emitter := b.emitter.cancelForTile (x, y) }.bumpGeneration x y
  { t with
    scheduler :=
      t.scheduler.enqueueRefinementSubsetAt x y (b.scheduler.bumpGenerationCollecting x y).2.1
        enc.presentPasses (enc.passes.map Prod.snd) now }

/-- The passes of an encoding that a mask names. -/
def onlyUnacked (unacked : UInt16) : List (UInt8 × Bytes) :=
  enc.passes.filter fun q => unacked &&& ((1 : UInt16) <<< q.1.toUInt16) ≠ 0

/-- The mask of a list of passes. -/
def subsetMask (passes : List (UInt8 × Bytes)) : UInt16 :=
  passes.foldl (fun acc q => acc ||| ((1 : UInt16) <<< q.1.toUInt16)) 0

/-- `stranded_reenqueue` for a tile in the CDF 5/3 state: the passes not acknowledged are queued
again, in the same generation. -/
def strandedReenqueue (now : Instant) : TileBridge :=
  let gen := b.scheduler.slots.generation x y
  let unacked := b.scheduler.slots.unackedMask x y gen enc.presentPasses
  if unacked = 0 then b
  else if b.scheduler.refinementQueueHoldsTile x y then b
  else
    let passes := onlyUnacked enc unacked
    { b with
      scheduler :=
        b.scheduler.enqueueRefinementSubsetAt x y gen (subsetMask passes) (passes.map Prod.snd)
          now }

/-! ### Queued passes leave -/

/-- `holds_pass`. -/
def holdsPass (e : ReliableTileEmitter) (x y p : UInt8) : Bool :=
  (e.cache.lookupContent (x, y, p)).isSome

/-- What is recorded of an emission. -/
def coverageOf (w : TileWork) : FragmentCoverage where
  tileX := w.tileX
  tileY := w.tileY
  generation := w.generation
  passIdx := w.passIdx
  codec := w.codec
  paletteId := w.paletteId
  paletteBundled := w.paletteBundled
  paletteHeld := w.paletteId.isSome

/-- The parameters of one drain. -/
structure DrainArgs where
  seq : UInt32
  timestampUs : UInt32
  maxFrag : ℕ
  budget : ℕ
  share : ℕ
  now : Instant

/-- The key of an emission: the label of the tile's generation, marked as a tile's. -/
def emitKey (seq : UInt32) (w : TileWork) : EmitKey where
  frameSeq := (b.scheduler.frameLabel w.tileX w.tileY seq).2 ||| tileDatagramFlag
  tileX := w.tileX
  tileY := w.tileY
  passIdx := w.passIdx

/-- The datagram of a work item. -/
def datagramOf (frameSeq timestampUs : UInt32) (w : TileWork) : Bytes :=
  encodeTileDatagram
    { frameSeq := frameSeq
      tileX := w.tileX
      tileY := w.tileY
      codec := w.codec
      generation := w.generation
      pass := w.passIdx
      timestampUs := timestampUs } w.payload

variable (args : DrainArgs)

/-- One turn of the loop of `drain_scheduler_into_quinn`. The source collects the datagrams and
submits them behind the loop, which does not read the emitter. -/
def emitWork (b : TileBridge) (e : SentWork) : TileBridge :=
  let key := b.emitKey args.seq e.work
  let labelled :=
    { b with scheduler := (b.scheduler.frameLabel e.work.tileX e.work.tileY args.seq).1 }
  if args.maxFrag < e.work.payload.length then labelled
  else
    { labelled with
      fragmentCoverage := b.fragmentCoverage.record key [coverageOf e.work]
      emitter :=
        b.emitter.submitOneAs key (datagramOf key.frameSeq args.timestampUs e.work) e.work.queuedAt
          none args.now e.retry }

/-- The tick of a drain: the emitter keeps the passes it still has cached to itself. -/
def tick : Scheduler × List SentWork :=
  b.scheduler.tickAtWith args.budget args.share args.now (holdsPass b.emitter)

/-- `drain_scheduler_into_quinn`. -/
def drainSchedulerIntoQuinn : TileBridge :=
  (b.tick args).2.foldl (emitWork args) { b with scheduler := (b.tick args).1 }

/-! ### Acknowledgements -/

/-- What an acknowledged palette emission settles. -/
def settleAck (c : FragmentCoverage) : PaletteTable :=
  match c.paletteId with
  | none => t
  | some id =>
    let t := lowerCarrying { t with delivered := Function.update t.delivered id true } id
      c.paletteBundled
    if c.paletteHeld then giveBack t id else t

/-- One record of an acknowledged key. -/
def creditCoverage (c : FragmentCoverage) : TileBridge :=
  let s := b.scheduler.markAcked c.tileX c.tileY c.generation c.passIdx
  match c.codec with
  | .cdf53 => { b with scheduler := s.recordCdf53Ack c.tileX c.tileY c.generation c.passIdx }
  | .palRle => { b with scheduler := s, paletteTable := settleAck b.paletteTable c }
  | .solid | .h264 | .skip => { b with scheduler := s }

/-- `apply_ack_coverage`, for one acknowledged key. -/
def applyAckCoverage (key : EmitKey) : TileBridge :=
  match b.fragmentCoverage.take key with
  | (_, none) => b
  | (m, some coverage) => coverage.foldl creditCoverage { b with fragmentCoverage := m }

/-- The tile part of `dispatch_ack_datagram`: the keys the ledger resolved the entries to. -/
def dispatchAck (keys : List EmitKey) : TileBridge :=
  keys.foldl applyAckCoverage { b with emitter := b.emitter.onAck keys }

end TileBridge

end Ghostframe.Transport
