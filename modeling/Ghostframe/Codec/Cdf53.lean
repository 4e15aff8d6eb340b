import Ghostframe.Lib.Bits
import Ghostframe.Lib.Buffer

/-!
# The CDF 5/3 tile codec

A 32×32 tile of three 8-bit channels is decomposed by three levels of the integer
CDF 5/3 lifting transform; the coefficients are cut into a sign plane and thirteen
magnitude planes, and every plane that is not empty is sent as one pass.

* `rowForward`, `rowInverse`: lifting in place on the first `n` entries of a row;
* `forward`, `inverse`: a tile to its 3072 coefficients and back;
* `rleEncode`, `rleDecodeInto`: zero runs of a bit plane;
* `decodePlanes`: a prefix of the planes to coefficients.

A work array is a function of its indices. Coefficients are `i16`, kept as
integers and cut by `toI16` where the source casts.
-/

namespace Ghostframe.Codec

/-- `CDF53_PASS_COUNT`. -/
def cdf53PassCount : ℕ := 14

/-- `CDF53_COEFFS_PER_CHANNEL`. -/
def cdf53CoeffsPerChannel : ℕ := 1024

/-- `CDF53_CHANNELS`. -/
def cdf53Channels : ℕ := 3

/-- `CDF53_TOTAL_COEFFS`. -/
def cdf53TotalCoeffs : ℕ := cdf53Channels * cdf53CoeffsPerChannel

/-- `BIT_PLANE_BYTES_PER_CHANNEL`. -/
def bitPlaneBytesPerChannel : ℕ := cdf53CoeffsPerChannel / 8

/-! ### Lifting on a row -/

variable (n : ℕ)

/-- `(1..n).step_by(2)`. -/
def oddIndices : List ℕ := (List.range (n / 2)).map fun i => 2 * i + 1

/-- `(0..n).step_by(2)`. -/
def evenIndices : List ℕ := (List.range ((n + 1) / 2)).map fun i => 2 * i

variable (buf : ℕ → ℤ)

/-- The right neighbour, mirrored at the end. -/
def rightOf (n i : ℕ) : ℤ := if i + 1 < n then buf (i + 1) else buf (i - 1)

/-- The left neighbour, mirrored at the start. -/
def leftOf (i : ℕ) : ℤ := if i = 0 then buf 1 else buf (i - 1)

/-- What the predict step takes from an odd entry. -/
def predicted (i : ℕ) : ℤ := (buf (i - 1) + rightOf buf n i) >>> (1 : ℕ)

/-- What the update step adds to an even entry. -/
def updated (i : ℕ) : ℤ := (leftOf buf i + rightOf buf n i + 2) >>> (2 : ℕ)

/-- Low-pass entries first, then high-pass ones. -/
def deinterleave (n : ℕ) (buf : ℕ → ℤ) (j : ℕ) : ℤ :=
  if j < n / 2 then buf (2 * j)
  else if j < 2 * (n / 2) then buf (2 * (j - n / 2) + 1)
  else if j < n then 0 else buf j

/-- The inverse of `deinterleave`. -/
def interleave (j : ℕ) : ℤ :=
  if j < 2 * (n / 2) then if j % 2 = 0 then buf (j / 2) else buf (n / 2 + j / 2)
  else if j < n then 0 else buf j

/-- `row_forward`: predict the odd entries, update the even ones, deinterleave. -/
def rowForward : ℕ → ℤ :=
  let predict := lift (oddIndices n) (fun b i => -predicted n b i) buf
  let update := lift (evenIndices n) (updated n) predict
  deinterleave n update

/-- `row_inverse`. -/
def rowInverse : ℕ → ℤ :=
  let unupdate := lift (evenIndices n) (fun b i => -updated n b i) (interleave n buf)
  lift (oddIndices n) (predicted n) unupdate

/-! ### Two dimensions -/

/-- A channel's work array, `work[y][x]`. -/
abbrev Work := ℕ → ℕ → ℤ

variable (size : ℕ)

/-- Transform the first `size` entries of each of the first `size` rows. -/
def onRows (f : (ℕ → ℤ) → ℕ → ℤ) (work : Work) : Work := fun y =>
  if y < size then f (work y) else work y

/-- Column `x`, as the source copies it out. -/
def column (work : Work) (x : ℕ) : ℕ → ℤ := fun y => if y < size then work y x else 0

/-- Transform the first `size` entries of each of the first `size` columns. -/
def onColumns (f : (ℕ → ℤ) → ℕ → ℤ) (work : Work) : Work := fun y x =>
  if x < size ∧ y < size then f (column size work x) y else work y x

/-- One level of decomposition of the `size`×`size` corner. -/
def forwardLevel (work : Work) : Work :=
  onColumns size (rowForward size) (onRows size (rowForward size) work)

/-- One level back. -/
def inverseLevel (work : Work) : Work :=
  onRows size (rowInverse size) (onColumns size (rowInverse size) work)

/-- The levels of `forward`, halving the corner each time. -/
def forwardLevels : ℕ → ℕ → Work → Work
  | 0, _, work => work
  | level + 1, size, work => forwardLevels level (size / 2) (forwardLevel size work)

/-- The levels of `inverse`, doubling the corner each time. -/
def inverseLevels : ℕ → ℕ → Work → Work
  | 0, _, work => work
  | level + 1, size, work => inverseLevels level (size * 2) (inverseLevel size work)

/-! ### Layout of a channel -/

/-- The `n`×`n` block at `(y, x)`, row by row. -/
def block (y x n : ℕ) : List (ℕ × ℕ) :=
  (List.range n).flatMap fun dy => (List.range n).map fun dx => (y + dy, x + dx)

/-- The order of a channel's coefficients:
LL3, HL3, LH3, HH3, HL2, LH2, HH2, HL1, LH1, HH1. -/
def bandOrder : List (ℕ × ℕ) :=
  block 0 0 4 ++ block 0 4 4 ++ block 4 0 4 ++ block 4 4 4 ++
    block 0 8 8 ++ block 8 0 8 ++ block 8 8 8 ++
    block 0 16 16 ++ block 16 0 16 ++ block 16 16 16

/-- `as i16`. -/
def toI16 (z : ℤ) : ℤ := z.bmod (2 ^ 16)

variable (tileBgra : Bytes)

/-- Channel `ch` of a BGRA tile, loaded into the 32×32 work array. -/
def loadChannel (ch : ℕ) : Work := fun y x =>
  if y < 32 ∧ x < 32 then ((tileBgra.getD ((y * 32 + x) * 4 + ch) 0).toNat : ℤ) else 0

/-- The coefficients of one channel. -/
def forwardChannel (ch : ℕ) : List ℤ :=
  let work := forwardLevels 3 32 (loadChannel tileBgra ch)
  bandOrder.map fun p => toI16 (work p.1 p.2)

/-- `forward`. -/
def forward : List ℤ :=
  (List.range cdf53Channels).flatMap (forwardChannel tileBgra)

variable (coefficients : List ℤ)

/-- A channel's part of the coefficients. -/
def channelOf (ch : ℕ) : List ℤ :=
  (coefficients.drop (ch * cdf53CoeffsPerChannel)).take cdf53CoeffsPerChannel

/-- The work array unpacked from a channel's coefficients. -/
def unpackChannel (channel : List ℤ) : Work := fun y x =>
  scatter bandOrder channel (fun _ => 0) (y, x)

/-- `clamp(0, 255) as u8`. -/
def clampU8 (z : ℤ) : UInt8 := .ofNat (max 0 (min z 255)).toNat

/-- `inverse`: 1024 pixels of three channels. -/
def inverse : Bytes :=
  (List.range 1024).flatMap fun px =>
    (List.range cdf53Channels).map fun ch =>
      clampU8 (inverseLevels 3 8 (unpackChannel (channelOf coefficients ch)) (px / 32) (px % 32))

/-! ### Bit planes -/

/-- The bit of a coefficient in a plane: its sign in plane 0, magnitude bit `13 - passIdx` else. -/
def planeBit (passIdx : ℕ) (coeff : ℤ) : Bool :=
  if passIdx = 0 then decide (coeff < 0)
  else decide ((coeff.natAbs >>> (13 - passIdx)) &&& 1 ≠ 0)

/-- `extract_bit_plane`. -/
def extractBitPlane (channel : List ℤ) (passIdx : ℕ) : Bytes :=
  packBits bitPlaneBytesPerChannel (channel.map (planeBit passIdx))

/-! ### Run lengths of zeros -/

/-- How many of the first `limit` bytes are zero, up to the first that is not. -/
def zeroRun : ℕ → Bytes → ℕ
  | 0, _ => 0
  | _, [] => 0
  | limit + 1, b :: rest => if b = 0 then zeroRun limit rest + 1 else 0

/-- `rle_encode`. -/
def rleEncode : Bytes → Bytes
  | [] => []
  | b :: rest =>
    if b = 0 then
      let more := zeroRun 127 rest
      (0x80 ||| UInt8.ofNat more) :: rleEncode (rest.drop more)
    else if b < 0x7F then b :: rleEncode rest
    else 0x7F :: b :: rleEncode rest
  termination_by data => data.length

/-- Store one byte at `n`, if there is room. -/
def storeByte (out : Bytes) (n : ℕ) (b : UInt8) : Bytes := if n < 128 then out.set n b else out

/-- Store `run` zeros from `n` on, up to 128. -/
def storeZeros (out : Bytes) (n run : ℕ) : Bytes :=
  let stop := min (n + run) 128
  if n < stop then out.take n ++ List.replicate (stop - n) 0 ++ out.drop stop else out

/-- The loop of `rle_decode_into`: the bytes written and the expanded length, capped at 129. -/
def rleDecodeLoop : Bytes → Bytes → ℕ → Bytes × ℕ
  | [], out, n => (out, n)
  | token :: rest, out, n =>
    if token = 0x7F then
      match rest with
      | [] => (out, n)
      | b :: rest' =>
        if n + 1 > 128 then (storeByte out n b, 129)
        else rleDecodeLoop rest' (storeByte out n b) (n + 1)
    else if token &&& 0x80 ≠ 0 then
      let run := (token &&& 0x7F).toNat + 1
      if n + run > 128 then (storeZeros out n run, 129)
      else rleDecodeLoop rest (storeZeros out n run) (n + run)
    else if n + 1 > 128 then (storeByte out n token, 129)
    else rleDecodeLoop rest (storeByte out n token) (n + 1)

/-- `rle_decode_into`. -/
def rleDecodeInto (rle out : Bytes) : Bytes × ℕ := rleDecodeLoop rle out 0

/-- The loop of `rle_expanded_len`: the length, and whether an escape ended the stream. -/
def rleExpandedLoop : Bytes → ℕ → ℕ
  | [], n => n
  | token :: rest, n =>
    let t := token.toNat
    let n' := n + 1 + (t >>> 7) * (t &&& 0x7F)
    if token = 0x7F then
      match rest with
      | [] => n' - 1
      | _ :: rest' => rleExpandedLoop rest' n'
    else rleExpandedLoop rest n'

/-- `rle_expanded_len`. -/
def rleExpandedLen (rle : Bytes) : ℕ := min (rleExpandedLoop rle 0) 129

/-! ### Passes -/

/-- The three channels' planes of a pass. -/
def passPlanes (passIdx : ℕ) : List Bytes :=
  (List.range cdf53Channels).map fun ch => extractBitPlane (channelOf coefficients ch) passIdx

/-- The passes that carry data; pass 0 always does. -/
def presentPasses : UInt16 :=
  (List.range cdf53PassCount).foldl
    (fun present passIdx =>
      if (passPlanes coefficients passIdx).any fun plane => plane.any fun b => decide (b ≠ 0) then
        withBit present passIdx
      else present) 1

/-- One channel's plane, run-length coded behind its length. -/
def framePlane (plane : Bytes) : Bytes :=
  let rle := rleEncode plane
  be16 (.ofNat rle.length) ++ rle

/-- The payload of one pass. -/
def passPayload (passIdx : ℕ) : Bytes :=
  (if passIdx = 0 then be16 (presentPasses coefficients) else []) ++
    (passPlanes coefficients passIdx).flatMap framePlane

/-- `encode_passes_sparse`. -/
def encodePassesSparse : UInt16 × List (UInt8 × Bytes) :=
  (presentPasses coefficients,
    (List.range cdf53PassCount).filterMap fun passIdx =>
      if hasBit (presentPasses coefficients) passIdx then
        some (.ofNat passIdx, passPayload coefficients passIdx)
      else none)

variable (planes : List Bytes)

/-- The magnitude of coefficient `i` of channel `ch`, as far as the planes give it. -/
def planeMagnitude (ch i : ℕ) : ℕ :=
  planes.zipIdx.foldl
    (fun magnitude e =>
      if bitAt (e.1.drop (ch * bitPlaneBytesPerChannel)) i && decide (e.2 ≠ 0) then
        magnitude ||| (1 <<< (13 - e.2))
      else magnitude) 0

/-- The sign of coefficient `i` of channel `ch`. -/
def planeSign (ch i : ℕ) : Bool :=
  match planes with
  | [] => false
  | plane :: _ => bitAt (plane.drop (ch * bitPlaneBytesPerChannel)) i

/-- The middle of the range of the bits not known yet. -/
def midpoint (k : ℕ) : ℕ :=
  if 2 ≤ k ∧ k < cdf53PassCount then 1 <<< (cdf53PassCount - k - 1) else 0

/-- `decode_planes`. -/
def decodePlanes : List ℤ :=
  (List.range cdf53Channels).flatMap fun ch =>
    (List.range cdf53CoeffsPerChannel).map fun i =>
      let magnitude := planeMagnitude planes ch i
      let known :=
        if magnitude ≠ 0 ∧ midpoint planes.length ≠ 0 then magnitude + midpoint planes.length
        else magnitude
      let mag : ℤ := (min known 32767 : ℕ)
      if planeSign planes ch i then -mag else mag

end Ghostframe.Codec
