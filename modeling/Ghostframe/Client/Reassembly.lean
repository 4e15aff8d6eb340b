import Ghostframe.Client.FrameAssembly

/-!
# One received datagram

`handleDatagram` routes a datagram by its first bytes: a parity envelope, an H.264
fragment, or a tile. A tile runs through `handleSourceTile`, which validates what
the wire claims, acknowledges it and hands it to the codec in `deliverTile`.

* `Provenance`: off the wire, or rebuilt from parity;
* `acceptFrameDimensions`, `purgeOutsideGrid`: a new frame size;
* `deliverCdf53`: a pass is ordered against the generation held, then validated.
-/

namespace Ghostframe.Client

open Codec Protocol

/-- `TILE_MIN`. -/
def tileMin : ℕ := datagramHeaderSize + tileHeaderSize

def frameDimensionsSentinel : UInt8 × UInt8 := (0xFF, 0xFF)
def evictionSentinel : UInt8 × UInt8 := (0xFE, 0xFE)

/-- How a source tile datagram came to be in hand. -/
inductive Provenance
  | received
  | rebuilt
  deriving DecidableEq

/-- Do the coordinates mark a control message? -/
def isSentinel (th : TileHeader) : Bool :=
  decide ((th.tileX, th.tileY) = frameDimensionsSentinel) ||
    decide ((th.tileX, th.tileY) = evictionSentinel)

/-- `parse_eviction`. -/
def parseEviction (datagram : Bytes) : Option EvictionReason :=
  match decodeTileDatagram datagram with
  | .error _ => none
  | .ok (_, th, payload) =>
    if (th.tileX, th.tileY) ≠ evictionSentinel then none
    else some (.fromByte (payload.headD 0))

/-- Split into groups of four, dropping an incomplete last one. -/
def quads : Bytes → List Bgra
  | b :: g :: r :: a :: rest => ⟨b, g, r, a⟩ :: quads rest
  | _ => []

/-- A CDF 5/3 pass that passed validation, in the form it will be emitted. -/
inductive Cdf53Pass
  | planes (bitPlanes : Bytes) (presentPasses : Option UInt16)
  | wire (streams : Bytes) (presentPasses : Option UInt16)
  deriving DecidableEq

namespace Cdf53Pass

/-- `Cdf53Pass::present_passes`. -/
def presentPasses : Cdf53Pass → Option UInt16
  | planes _ present => present
  | wire _ present => present

/-- The payload handed up. -/
def data (passIdx : UInt8) (newGeneration : Bool) : Cdf53Pass → TileData
  | planes bitPlanes present => .cdf53 passIdx bitPlanes present newGeneration
  | wire streams present => .cdf53Wire passIdx streams present newGeneration

end Cdf53Pass

namespace ClientCore

/-! ### The grid -/

variable (c : ClientCore)

/-- `tile_in_grid`. -/
def tileInGrid (tileX tileY : UInt8) : Bool :=
  c.frameDims.all fun dims => TileDecoder.inGrid dims.1 dims.2 tileX tileY

/-- `purge_outside_grid`. -/
def purgeOutsideGrid : ClientCore :=
  { c with
    cdf53Coverage := c.cdf53Coverage.retain fun pos _ => c.tileInGrid pos.1 pos.2
    pendingNacks := c.pendingNacks.retain fun key _ => c.tileInGrid key.2.2 key.2.1 }

/-- Is a dimension one the client accepts? -/
def dimensionOk (n : UInt32) : Bool := decide (1 ≤ n) && decide (n ≤ maxFrameDimension)

/-- `accept_frame_dimensions`. -/
def acceptFrameDimensions (payload : Bytes) : ClientCore × List Event :=
  if payload.length < 8 then (c, [])
  else
    let width := be32At payload 0
    let height := be32At payload 4
    if !dimensionOk width || !dimensionOk height then (c, [])
    else
      let resized := { c with frameDims := some (width, height) }
      (if c.frameDims = some (width, height) then resized else resized.purgeOutsideGrid,
        [.frameDimensions width height])

/-! ### The codecs -/

/-- A solid tile: exactly four bytes. -/
def deliverSolid (frameSeq : UInt32) (th : TileHeader) (payload : Bytes) :
    ClientCore × List Event :=
  match payload with
  | [b, g, r, a] =>
    (c, [.tilePayload frameSeq th.tileX th.tileY th.generation (.solid ⟨b, g, r, a⟩)])
  | _ => (c, [])

/-- A palette tile. -/
def deliverPalRle (frameSeq : UInt32) (th : TileHeader) (payload : Bytes)
    (nowUs : ℕ) : ClientCore × List Event :=
  match prevalidatePalRle payload c.paletteShadow with
  | .error code =>
    (c.reportDecodeError .palRle th.tileX th.tileY code nowUs,
      [.decodeError .palRle th.tileX th.tileY code])
  | .ok v =>
    let tile : Event :=
      .tilePayload frameSeq th.tileX th.tileY th.generation
        (.palRle v.paletteId v.count v.indices v.wireFlags)
    match v.paletteUpsert with
    | none => (c, [tile])
    | some upsert =>
      ({ c with paletteShadow := c.paletteShadow.put v.paletteId v.count },
        [.paletteUpdated v.paletteId ((quads upsert).take v.count.toNat), tile])

/-- Validate a pass, expanding it unless the consumer does. -/
def validatePass (th : TileHeader) (payload : Bytes) : Except DecodeErrorCode Cdf53Pass :=
  if c.deliversCdf53Wire then
    (validateCdf53 payload th.pass).map fun info =>
      .wire ((payload.take info.streamsEnd).drop info.streamsStart) info.presentPasses
  else
    (prevalidateCdf53 payload th.generation th.pass).map fun pre =>
      .planes pre.bitPlanes pre.presentPasses

/-- The coverage held for a tile, unless its label has expired. -/
def heldCoverage (th : TileHeader) : Option CoverageEntry :=
  (c.cdf53Coverage.get? (th.tileX, th.tileY)).filter fun e =>
    !labelExpired e.frameSeq c.newestReceivedLabel

/-- Is a pass dropped before it is looked at? -/
def dropsPass (frameSeq : UInt32) (th : TileHeader) : Bool :=
  labelRunsAhead frameSeq c.newestReceivedLabel ||
    (c.heldCoverage th).any fun e => arrivalIsStale e.generation e.frameSeq th.generation frameSeq

/-- The bookkeeping of an arrival: coverage, and the passes to ask for. -/
def noteArrival (frameSeq : UInt32) (th : TileHeader) (outcome : ArrivalOutcome)
    (nowUs : ℕ) : ClientCore :=
  let c :=
    if outcome.committed then
      { c with cdf53Coverage := c.cdf53Coverage.insert (th.tileX, th.tileY) outcome.entry }
    else c
  outcome.nackPasses.foldl (fun c p => c.queuePassNack frameSeq th.tileX th.tileY nowUs p) c

/-- A CDF 5/3 pass. -/
def deliverCdf53 (frameSeq : UInt32) (th : TileHeader) (wireSeq : UInt32)
    (payload : Bytes) (nowUs : ℕ) : ClientCore × List Event :=
  if c.dropsPass frameSeq th then (c, [])
  else
    match c.validatePass th payload with
    | .ok pass =>
      let outcome := applyCdf53Arrival (c.heldCoverage th) th.generation th.pass frameSeq nowUs
        true pass.presentPasses
      ((c.noteArrival frameSeq th outcome nowUs).ackTransmission wireSeq nowUs,
        [.tilePayload frameSeq th.tileX th.tileY th.generation
          (pass.data th.pass outcome.newGeneration)])
    | .error code =>
      let outcome := applyCdf53Arrival (c.heldCoverage th) th.generation th.pass frameSeq nowUs
        false none
      ((c.noteArrival frameSeq th outcome nowUs).reportDecodeError .cdf53 th.tileX th.tileY code
          nowUs,
        [.decodeError .cdf53 th.tileX th.tileY code])

/-- `deliver_tile`. -/
def deliverTile (frameSeq : UInt32) (th : TileHeader) (wireSeq : UInt32)
    (payload : Bytes) (nowUs : ℕ) : ClientCore × List Event :=
  match th.codec with
  | .solid => c.deliverSolid frameSeq th payload
  | .palRle => c.deliverPalRle frameSeq th payload nowUs
  | .cdf53 => c.deliverCdf53 frameSeq th wireSeq payload nowUs
  | .h264 | .skip => (c, [])

/-! ### Tile datagrams -/

/-- The newest label off the wire advances; the newest frame number too. -/
def noteLabel (frameSeq : UInt32) (counts : Bool) : ClientCore :=
  { c with
    newestReceivedLabel :=
      if counts && c.newestReceivedLabel.all fun newest => frameSeqIsNewer frameSeq newest then
        some frameSeq
      else c.newestReceivedLabel
    latestFrameSeq := if c.latestFrameSeq < frameSeq then frameSeq else c.latestFrameSeq }

/-- A control message. -/
def handleSentinel (th : TileHeader) (payload bytes : Bytes) : ClientCore × List Event :=
  if (th.tileX, th.tileY) = frameDimensionsSentinel then c.acceptFrameDimensions payload
  else (c, ((parseEviction bytes).map Event.evicted).toList)

/-- A tile whose headers the client accepts. -/
def handleTile (dh : DatagramHeader) (th : TileHeader) (payload : Bytes)
    (nowUs : ℕ) (provenance : Provenance) : ClientCore × List Event :=
  let frameSeq := dh.frameSeq &&& ~~~tileDatagramFlag
  let c := if th.codec = .cdf53 then c else c.ackTransmission dh.wireSeq nowUs
  let c := c.noteLabel frameSeq (decide (provenance = .received))
  if th.codec = .skip then (c, []) else c.deliverTile frameSeq th dh.wireSeq payload nowUs

/-- `handle_source_tile`. -/
def handleSourceTile (bytes : Bytes) (nowUs : ℕ) (provenance : Provenance) :
    ClientCore × List Event :=
  if bytes.length < tileMin then (c, [])
  else
    match decodeTileDatagram bytes with
    | .error _ => (c, [])
    | .ok (dh, th, payload) =>
      if isSentinel th then
        (c.noteLabel (dh.frameSeq &&& ~~~tileDatagramFlag) false).handleSentinel th payload bytes
      else if dh.fragTotal ≠ 1 ∨ dh.fragIdx ≠ 0 ∨ !c.tileInGrid th.tileX th.tileY then (c, [])
      else c.handleTile dh th payload nowUs provenance

/-! ### The dispatch -/

/-- `u64::saturating_add(1)`. -/
def saturatingSucc64 (n : ℕ) : ℕ := min (n + 1) (2 ^ 64 - 1)

/-- What a datagram is taken for. -/
inductive Route
  | ignored
  | parity
  | frame
  | tile
  deriving DecidableEq

/-- The tests of `handle_datagram_payloads`, in its order. -/
def route (bytes : Bytes) : Route :=
  if bytes = [] then .ignored
  else if bytes.headD 0 = tileParityEnvelope ∧ !isTileDatagram bytes then .parity
  else if bytes.length < 20 then .ignored
  else if !isTileDatagram bytes then if bytes.length < frameHeaderSize then .ignored else .frame
  else if bytes.length < tileMin then .ignored
  else .tile

/-- A parity envelope. -/
def handleParity (bytes : Bytes) (nowUs : ℕ) : ClientCore × List Event :=
  match TileParityEnvelope.decode bytes with
  | .error _ => (c, [])
  | .ok env =>
    let received := c.parityDecoder.receiveParity env
    let c := { c with parityDecoder := received.1 }
    match received.2 with
    | some recovered => c.handleSourceTile recovered nowUs .rebuilt
    | none => (c, [])

/-- A tile datagram: it may complete a parity group, whose missing source goes first. -/
def handleTileDatagram (bytes : Bytes) (nowUs : ℕ) : ClientCore × List Event :=
  let recorded := c.parityDecoder.recordSource (be32At bytes 8) bytes
  let c :=
    { c with datagramsTile := saturatingSucc64 c.datagramsTile, parityDecoder := recorded.1 }
  let replayed :=
    match recorded.2 with
    | some source => c.handleSourceTile source nowUs .rebuilt
    | none => (c, [])
  let own := replayed.1.handleSourceTile bytes nowUs .received
  (own.1, replayed.2 ++ own.2)

/-- A datagram counts as a frame datagram on the branch that takes it for one. -/
def countFrame : ClientCore :=
  { c with datagramsFrame := saturatingSucc64 c.datagramsFrame }

/-- `handle_datagram_payloads`. -/
def handleDatagramPayloads (bytes : Bytes) (nowUs : ℕ) : ClientCore × List Event :=
  match route bytes with
  | .ignored => (c, [])
  | .parity => c.handleParity bytes nowUs
  | .frame => c.countFrame.handleFrameDatagram bytes nowUs
  | .tile => c.handleTileDatagram bytes nowUs

/-- In `Decoded` mode the events of a datagram run through the pixel decoder. -/
def decodeEvents (events : List Event) : ClientCore × List Event :=
  match c.decoder with
  | some decoder =>
    ({ c with decoder := some (decoder.decodeAll events).1 }, (decoder.decodeAll events).2)
  | none => (c, events)

/-- `handle_datagram`. -/
def handleDatagram (bytes : Bytes) (nowUs : ℕ) : ClientCore × List Event :=
  (c.handleDatagramPayloads bytes nowUs).1.decodeEvents (c.handleDatagramPayloads bytes nowUs).2

/-- The client over a sequence of datagrams, each with its time of arrival. -/
def receive (c : ClientCore) : List (Bytes × ℕ) → ClientCore × List Event
  | [] => (c, [])
  | (bytes, nowUs) :: rest =>
    let handled := c.handleDatagram bytes nowUs
    let later := handled.1.receive rest
    (later.1, handled.2 ++ later.2)

end ClientCore

end Ghostframe.Client
