import Ghostframe.Lib.Bytes

/-!
# The wire formats

The datagrams server and client exchange, as the encoders write them and the
decoders read them.

* `DatagramHeader`, `TileHeader`: a tile pass; `isTileDatagram` tells it from a
  frame datagram by bit 31 of the first word;
* `FrameHeader`, `fragmentFrameRef`: an H.264 access unit cut into datagrams;
* `TileParityEnvelope`: the parity of a group of tile datagrams.

A header decoder first checks the length, so reading past the end with a default
never happens.
-/

namespace Ghostframe.Protocol

open List

/-- Why a datagram does not decode. -/
inductive ProtocolError
  | tooShort (expected got : ℕ)
  | unknownCodec (code : UInt8)
  | unknownEnvelope (discriminator : UInt8)
  | invalidLength
  deriving DecidableEq

/-- How a tile is coded. -/
inductive Codec
  | skip
  | h264
  | palRle
  | solid
  | cdf53
  deriving DecidableEq

/-- `codec as u8`. -/
def Codec.toU8 : Codec → UInt8
  | .skip => 0
  | .h264 => 1
  | .palRle => 2
  | .solid => 3
  | .cdf53 => 5

/-- `Codec::from_u8`. -/
def Codec.fromU8 (v : UInt8) : Except ProtocolError Codec :=
  if v = 0 then .ok .skip
  else if v = 1 then .ok .h264
  else if v = 2 then .ok .palRle
  else if v = 3 then .ok .solid
  else if v = 5 then .ok .cdf53
  else .error (.unknownCodec v)

def datagramHeaderSize : ℕ := 16
def tileHeaderSize : ℕ := 8
def frameHeaderSize : ℕ := 22
def tileParityHeaderSize : ℕ := 7

/-- `wire_seq` of a datagram the ledger does not track. -/
def noAck : UInt32 := 0xFFFFFFFF

/-- `wire_seq` of a tile datagram the emitter has not stamped yet. -/
def unstampedWireSeq : UInt32 := 0

/-- `ref_frame_seq` of a frame that references no earlier frame. -/
def refFrameNone : UInt32 := 0xFFFFFFFF

def frameFlagIdr : UInt8 := 0x01
def frameFlagNonRef : UInt8 := 0x02
def frameFlagMarkLt : UInt8 := 0x04
def frameFlagTargetIsLt : UInt8 := 0x08
def frameFlagPad : UInt8 := 0x10
def frameFlagMarkTarget : UInt8 := 0x20

/-- First byte of a parity datagram. -/
def tileParityEnvelope : UInt8 := 0x04

/-- Bit 31 of `frame_seq`: set on tile datagrams, clear on frame datagrams. -/
def tileDatagramFlag : UInt32 := 0x80000000

/-! ### Tile datagrams -/

/-- The header of a tile datagram. -/
structure DatagramHeader where
  frameSeq : UInt32
  fragIdx : UInt16
  fragTotal : UInt16
  wireSeq : UInt32
  timestampUs : UInt32
  deriving DecidableEq

open DatagramHeader

def DatagramHeader.encode (h : DatagramHeader) : Bytes :=
  be32 h.frameSeq ++ be16 h.fragIdx ++ be16 h.fragTotal ++ be32 h.wireSeq ++ be32 h.timestampUs

def DatagramHeader.decode (data : Bytes) : Except ProtocolError DatagramHeader :=
  if data.length < datagramHeaderSize then .error (.tooShort datagramHeaderSize data.length)
  else
    .ok
      { frameSeq := be32At data 0
        fragIdx := be16At data 4
        fragTotal := be16At data 6
        wireSeq := be32At data 8
        timestampUs := be32At data 12 }

/-- What a tile datagram says about its tile; generation and pass have four bits each. -/
structure TileHeader where
  tileX : UInt8
  tileY : UInt8
  codec : Codec
  lz4 : Bool
  generation : UInt8
  pass : UInt8
  payloadLen : UInt32
  deriving DecidableEq

def TileHeader.encode (h : TileHeader) : Bytes :=
  [h.tileX, h.tileY, (h.codec.toU8 <<< 1) ||| (if h.lz4 then 1 else 0),
    ((h.generation &&& 0x0F) <<< 4) ||| (h.pass &&& 0x0F)] ++ be32 h.payloadLen

def TileHeader.decode (data : Bytes) : Except ProtocolError TileHeader :=
  if data.length < tileHeaderSize then .error (.tooShort tileHeaderSize data.length)
  else
    match Codec.fromU8 (data.getD 2 0 >>> 1) with
    | .error e => .error e
    | .ok codec =>
      .ok
        { tileX := data.getD 0 0
          tileY := data.getD 1 0
          codec := codec
          lz4 := data.getD 2 0 &&& 1 ≠ 0
          generation := data.getD 3 0 >>> 4
          pass := data.getD 3 0 &&& 0x0F
          payloadLen := be32At data 4 }

/-- The pieces of a payload; an empty one is a single empty piece. -/
def payloadChunks (payload : Bytes) (maxFragmentPayload : ℕ) : List Bytes :=
  if payload = [] then [[]] else chunks maxFragmentPayload payload

/-- What `fragment_tile` is given besides the payload. -/
structure TileFragmentInputs where
  frameSeq : UInt32
  tileX : UInt8
  tileY : UInt8
  codec : Codec
  generation : UInt8
  pass : UInt8
  timestampUs : UInt32
  deriving DecidableEq

/-- The two headers of fragment `idx` of `total`, before the emitter stamps its `wire_seq`. -/
def TileFragmentInputs.headers (inputs : TileFragmentInputs) (total idx payloadLen : ℕ) :
    DatagramHeader × TileHeader :=
  ({ frameSeq := inputs.frameSeq
     fragIdx := .ofNat idx
     fragTotal := .ofNat total
     wireSeq := unstampedWireSeq
     timestampUs := inputs.timestampUs },
   { tileX := inputs.tileX
     tileY := inputs.tileY
     codec := inputs.codec
     lz4 := false
     generation := inputs.generation
     pass := inputs.pass
     payloadLen := .ofNat payloadLen })

/-- `fragment_tile`; it asserts that `maxFragmentPayload` is not zero. -/
def fragmentTile (inputs : TileFragmentInputs) (payload : Bytes) (maxFragmentPayload : ℕ) :
    List Bytes :=
  let pieces := payloadChunks payload maxFragmentPayload
  pieces.mapIdx fun idx chunk =>
    let headers := inputs.headers pieces.length idx payload.length
    headers.1.encode ++ headers.2.encode ++ chunk

/-- `encode_tile_datagram`: a tile pass is one datagram. -/
def encodeTileDatagram (inputs : TileFragmentInputs) (payload : Bytes) : Bytes :=
  (fragmentTile inputs payload (max payload.length 1)).headD []

/-- `decode_tile_datagram`. -/
def decodeTileDatagram (data : Bytes) :
    Except ProtocolError (DatagramHeader × TileHeader × Bytes) :=
  match DatagramHeader.decode data with
  | .error e => .error e
  | .ok dh =>
    let rest := data.drop datagramHeaderSize
    match TileHeader.decode rest with
    | .error e => .error e
    | .ok th => .ok (dh, th, rest.drop tileHeaderSize)

/-- `is_tile_datagram`. -/
def isTileDatagram (data : Bytes) : Bool :=
  if data.length < 4 then false else decide (be32At data 0 &&& tileDatagramFlag ≠ 0)

/-! ### Frame datagrams -/

/-- The per-frame reference description. -/
structure FrameRefInfo where
  flags : UInt8
  slots : UInt8
  refFrameSeq : UInt32
  deriving DecidableEq

/-- An IDR: no reference. -/
def FrameRefInfo.idr : FrameRefInfo := ⟨frameFlagIdr, 0, refFrameNone⟩

/-- The header of one fragment of an H.264 access unit. -/
structure FrameHeader where
  frameSeq : UInt32
  fragIdx : UInt16
  fragTotal : UInt16
  wireSeq : UInt32
  timestampUs : UInt32
  flags : UInt8
  slots : UInt8
  refFrameSeq : UInt32
  deriving DecidableEq

open FrameHeader

def FrameHeader.encode (h : FrameHeader) : Bytes :=
  be32 h.frameSeq ++ be16 h.fragIdx ++ be16 h.fragTotal ++ be32 h.wireSeq ++ be32 h.timestampUs ++
    [h.flags, h.slots] ++ be32 h.refFrameSeq

def FrameHeader.decode (data : Bytes) : Except ProtocolError FrameHeader :=
  if data.length < frameHeaderSize then .error (.tooShort frameHeaderSize data.length)
  else
    .ok
      { frameSeq := be32At data 0
        fragIdx := be16At data 4
        fragTotal := be16At data 6
        wireSeq := be32At data 8
        timestampUs := be32At data 12
        flags := data.getD 16 0
        slots := data.getD 17 0
        refFrameSeq := be32At data 18 }

/-- `FrameHeader::is_keyframe`. -/
def FrameHeader.isKeyframe (h : FrameHeader) : Bool := h.flags &&& frameFlagIdr ≠ 0

/-- `decode_frame_datagram`. -/
def decodeFrameDatagram (data : Bytes) : Except ProtocolError (FrameHeader × Bytes) :=
  match FrameHeader.decode data with
  | .error e => .error e
  | .ok h => .ok (h, data.drop frameHeaderSize)

/-- The header of fragment `idx` of `total`. -/
def fragmentHeader (frameSeq timestampUs : UInt32) (info : FrameRefInfo) (total idx : ℕ) :
    FrameHeader where
  frameSeq := frameSeq
  fragIdx := .ofNat idx
  fragTotal := .ofNat total
  wireSeq := noAck
  timestampUs := timestampUs
  flags := info.flags
  slots := info.slots
  refFrameSeq := info.refFrameSeq

/-- `fragment_frame_ref`; it asserts that `maxFragmentPayload` is not zero. -/
def fragmentFrameRef (frameSeq timestampUs : UInt32) (info : FrameRefInfo) (payload : Bytes)
    (maxFragmentPayload : ℕ) : List Bytes :=
  let pieces := payloadChunks payload maxFragmentPayload
  pieces.mapIdx fun idx chunk =>
    (fragmentHeader frameSeq timestampUs info pieces.length idx).encode ++ chunk

/-- The emitter's stamp: the number of the transmission goes into bytes 8 to 11. -/
def stampWireSeq (datagram : Bytes) (wireSeq : UInt32) : Bytes :=
  datagram.take 8 ++ be32 wireSeq ++ datagram.drop 12

/-! ### Parity datagrams -/

/-- The parity of `k` source datagrams starting at `groupFirstWireSeq`. -/
structure TileParityEnvelope where
  groupFirstWireSeq : UInt32
  k : UInt8
  parityIdx : UInt8
  sourceLens : List UInt16
  parityPayload : Bytes
  deriving DecidableEq

open TileParityEnvelope

def TileParityEnvelope.encode (env : TileParityEnvelope) : Bytes :=
  [tileParityEnvelope] ++ be32 env.groupFirstWireSeq ++ [env.k, env.parityIdx] ++
    (env.sourceLens.map be16).flatten ++ env.parityPayload

def TileParityEnvelope.decode (data : Bytes) : Except ProtocolError TileParityEnvelope :=
  if data.length < tileParityHeaderSize then .error (.tooShort tileParityHeaderSize data.length)
  else if data.getD 0 0 ≠ tileParityEnvelope then .error (.unknownEnvelope (data.getD 0 0))
  else
    let k := data.getD 5 0
    let tableEnd := tileParityHeaderSize + 2 * k.toNat
    if data.length < tableEnd then .error (.tooShort tableEnd data.length)
    else
      .ok
        { groupFirstWireSeq := be32At data 1
          k := k
          parityIdx := data.getD 6 0
          sourceLens := (List.range k.toNat).map fun i => be16At data (tileParityHeaderSize + 2 * i)
          parityPayload := data.drop tableEnd }

/-! ### Round trips -/

@[simp] theorem FrameHeader.length_encode (h : FrameHeader) :
    h.encode.length = frameHeaderSize := rfl

theorem FrameHeader.decode_encode (h : FrameHeader) (payload : Bytes) :
    decode (h.encode ++ payload) = .ok h := by
  have hlen : ¬ (h.encode ++ payload).length < frameHeaderSize := by
    rw [length_append, length_encode]
    omega
  rw [decode, if_neg hlen]
  simp [encode, be16At, be32At, be16, be32]

theorem decodeFrameDatagram_encode (h : FrameHeader) (payload : Bytes) :
    decodeFrameDatagram (h.encode ++ payload) = .ok (h, payload) := by
  rw [decodeFrameDatagram, decode_encode]
  rw [← length_encode h, drop_left]

/-- Stamping a frame datagram changes the number in its header and nothing else. -/
theorem stampWireSeq_frameDatagram (h : FrameHeader) (payload : Bytes) (ws : UInt32) :
    stampWireSeq (h.encode ++ payload) ws = { h with wireSeq := ws }.encode ++ payload := by
  simp [stampWireSeq, FrameHeader.encode, be16, be32]

/-- The first byte of a frame datagram is the top byte of its `frame_seq`. -/
theorem headD_frameDatagram (h : FrameHeader) (payload : Bytes) :
    (h.encode ++ payload).headD 0 = .ofNat (h.frameSeq.toNat / 2 ^ 24) := by
  simp [FrameHeader.encode, be32]

theorem be32At_frameDatagram (h : FrameHeader) (payload : Bytes) :
    be32At (h.encode ++ payload) 0 = h.frameSeq := by
  simp [FrameHeader.encode, be32At, be32]

theorem length_table (lens : List UInt16) : (lens.map be16).flatten.length = 2 * lens.length := by
  induction lens with
  | nil => rfl
  | cons x lens ih =>
    simp only [map_cons, flatten_cons, length_append, ih, length_be16,
      length_cons]
    omega

/-- Entry `i` of a table of 16-bit numbers is at offset `2 * i`. -/
theorem be16At_table (pre rest : Bytes) (lens : List UInt16) (i : ℕ) (hi : i < lens.length) :
    be16At (pre ++ ((lens.map be16).flatten ++ rest)) (pre.length + 2 * i) =
      lens.get ⟨i, hi⟩ := by
  induction lens generalizing pre i with
  | nil => simp at hi
  | cons x lens ih =>
    rw [map_cons, flatten_cons, append_assoc]
    cases i with
    | zero => exact be16At_append pre _ x
    | succ i =>
      have hpre : pre.length + 2 * (i + 1) = (pre ++ be16 x).length + 2 * i := by
        rw [length_append, length_be16]
        omega
      rw [hpre, ← append_assoc]
      exact ih (pre ++ be16 x) i (by simpa using hi)

/-- A parity envelope is read back, when its table has one length per source. -/
theorem TileParityEnvelope.decode_encode (env : TileParityEnvelope)
    (hk : env.sourceLens.length = env.k.toNat) :
    decode env.encode = .ok env := by
  obtain ⟨first, k, idx, lens, payload⟩ := env
  obtain ⟨head, hhead⟩ : ∃ head : Bytes, head = [tileParityEnvelope] ++ be32 first ++ [k, idx] :=
    ⟨_, rfl⟩
  have hlen : head.length = tileParityHeaderSize := by rw [hhead]; rfl
  obtain ⟨data, hdata⟩ : ∃ data, data = head ++ ((lens.map be16).flatten ++ payload) := ⟨_, rfl⟩
  have henc : encode ⟨first, k, idx, lens, payload⟩ = data := by simp [encode, hdata, hhead]
  rw [henc, decode]
  have hk5 : data.getD 5 0 = k := by simp [hdata, hhead, be32]
  have h0 : data.getD 0 0 = tileParityEnvelope := by simp [hdata, hhead]
  have htotal : data.length = tileParityHeaderSize + (2 * k.toNat + payload.length) := by
    rw [hdata, length_append, length_append, length_table, hk, hlen]
  rw [if_neg (by omega), if_neg (not_not.2 h0)]
  simp only [hk5]
  rw [if_neg (by omega)]
  have hfirst : be32At data 1 = first := by simp [hdata, hhead, be32At, be32]
  have hidx : data.getD 6 0 = idx := by simp [hdata, hhead, be32]
  have htable : (range k.toNat).map (fun i => be16At data (tileParityHeaderSize + 2 * i)) =
      lens := by
    refine ext_getElem (by simp [hk]) fun i h1 h2 => ?_
    rw [getElem_map, getElem_range, hdata, ← hlen]
    exact be16At_table head payload lens i h2
  have hrest : data.drop (tileParityHeaderSize + 2 * k.toNat) = payload := by
    rw [hdata, ← append_assoc, drop_left']
    rw [length_append, length_table, hk, hlen]
  rw [hfirst, hidx, htable, hrest]

/-- A tile pass is one datagram: the two headers and the whole payload. -/
theorem encodeTileDatagram_eq (inputs : TileFragmentInputs) (payload : Bytes) :
    encodeTileDatagram inputs payload =
      (inputs.headers 1 0 payload.length).1.encode ++
        ((inputs.headers 1 0 payload.length).2.encode ++ payload) := by
  unfold encodeTileDatagram fragmentTile payloadChunks
  cases payload with
  | nil => simp
  | cons b payload =>
    have hone : chunks (max (b :: payload).length 1) (b :: payload) = [b :: payload] := by
      have hmax : max (b :: payload).length 1 = payload.length + 1 := by simp
      cases payload <;> simp [chunks, chunksOf]
    rw [if_neg (cons_ne_nil b payload), hone]
    simp

end Ghostframe.Protocol
