import Ghostframe.Client.Cdf53
import Ghostframe.Codec.Lifting

/-!
# CDF 5/3 tiles arrive without loss

The server transforms a tile and sends its present passes; the client validates
each pass it receives and integrates it.

* `prevalidateCdf53_passPayload`: every pass sent is accepted, and expands to the
  planes it was made from;
* `cdf53_validators_agree`: validating without expanding refuses the same passes;
* `cdf53_lossless`: whatever the order and the repetitions, once every present
  pass has been delivered the last picture is the tile.
-/

namespace Ghostframe.Client

open Codec Cdf53TileState List

/-! ### Validation accepts what is sent -/

theorem expandStream_rleEncode {done plane : Bytes} {ch : ℕ} (n : ℕ)
    (hdone : done.length = ch * 128) (hplane : plane.length = 128) :
    expandStream (done ++ List.replicate (128 + n) 0) ch (rleEncode plane) =
      .ok (done ++ plane ++ List.replicate n 0) := by
  have hslot : (((done ++ replicate (128 + n) 0).drop (ch * 128)).take 128).length = 128 := by
    simp only [length_take, length_drop, length_append, length_replicate]
    omega
  have hafter : (done ++ replicate (128 + n) (0 : UInt8)).drop (ch * 128 + 128) =
      replicate n 0 := by
    rw [← drop_drop, ← hdone, drop_left, drop_replicate, Nat.add_sub_cancel_left]
  simp only [expandStream, rleDecodeInto_rleEncode hplane hslot, ne_eq, not_true, if_false, hafter]
  rw [← hdone, take_left]

/-- The walk reads one framed plane and goes on behind it. -/
theorem walkChannels_framePlane {σ : Type*} {each : σ → ℕ → Bytes → Except DecodeErrorCode σ}
    {head plane tail : Bytes} (hplane : plane.length = 128) {s s' : σ} {ch : ℕ} (rest : List ℕ)
    (h : each s ch (rleEncode plane) = .ok s') :
    walkChannels (head ++ (framePlane plane ++ tail)) each (ch :: rest) head.length s =
      walkChannels (head ++ (framePlane plane ++ tail)) each rest
        (head ++ framePlane plane).length s' := by
  have hle := length_rleEncode_le plane
  have hlen : (UInt16.ofNat (rleEncode plane).length).toNat = (rleEncode plane).length :=
    UInt16.toNat_ofNat_of_lt' (by simp only [UInt16.size]; omega)
  have hframe : head ++ (framePlane plane ++ tail) =
      head ++ (be16 (.ofNat (rleEncode plane).length) ++ (rleEncode plane ++ tail)) := by
    simp [framePlane]
  have hbody : ((head ++ (framePlane plane ++ tail)).drop (head.length + 2)).take
      (rleEncode plane).length = rleEncode plane := by
    rw [hframe, ← drop_drop, drop_left]
    have htwo : (be16 (.ofNat (rleEncode plane).length)).length = 2 := length_be16 _
    rw [← htwo, drop_left, take_left]
  have htotal : (head ++ (framePlane plane ++ tail)).length =
      head.length + 2 + (rleEncode plane).length + tail.length := by
    simp [framePlane]
    omega
  have hnext : head.length + 2 + (rleEncode plane).length = (head ++ framePlane plane).length := by
    simp [framePlane]
    omega
  have hread : be16At (head ++ (framePlane plane ++ tail)) head.length =
      .ofNat (rleEncode plane).length := by
    rw [hframe, be16At_append]
  rw [walkChannels, if_neg (by omega)]
  simp only [hread, hlen]
  rw [if_neg (by omega), hbody, h, hnext]

/-- The walk over the three planes of a pass. -/
theorem walkChannels_planes {head p0 p1 p2 : Bytes} (h0 : p0.length = 128) (h1 : p1.length = 128)
    (h2 : p2.length = 128) :
    ∃ stop, walkChannels (head ++ [p0, p1, p2].flatMap framePlane) expandStream [0, 1, 2]
      head.length (List.replicate 384 0) = .ok ([p0, p1, p2].flatten, stop) := by
  have hzero : (replicate 384 0 : Bytes) = [] ++ replicate (128 + 256) 0 := rfl
  have hflat : head ++ [p0, p1, p2].flatMap framePlane =
      head ++ (framePlane p0 ++ (framePlane p1 ++ framePlane p2)) := by
    simp [flatMap_cons]
  have hsecond : head ++ (framePlane p0 ++ (framePlane p1 ++ framePlane p2)) =
      (head ++ framePlane p0) ++ (framePlane p1 ++ framePlane p2) := by
    rw [append_assoc]
  have hthird : (head ++ framePlane p0) ++ (framePlane p1 ++ framePlane p2) =
      (head ++ framePlane p0 ++ framePlane p1) ++ (framePlane p2 ++ []) := by
    simp only [append_assoc, append_nil]
  refine ⟨(head ++ framePlane p0 ++ framePlane p1 ++ framePlane p2).length, ?_⟩
  rw [hflat, hzero, walkChannels_framePlane h0 [1, 2] (expandStream_rleEncode 256 rfl h0), hsecond,
    walkChannels_framePlane h1 [2] (expandStream_rleEncode 128 (by simpa using h0) h1), hthird,
    walkChannels_framePlane h2 [] (expandStream_rleEncode 0 (by simp [h0, h1]) h2), walkChannels]
  simp [append_assoc]

/-- **What the server encodes is accepted**, and expands to the planes it was made from. -/
theorem prevalidateCdf53_passPayload (coefficients : List ℤ) (generation : UInt8) {passIdx : ℕ}
    (hp : passIdx < cdf53PassCount) :
    prevalidateCdf53 (passPayload coefficients passIdx) generation (.ofNat passIdx) =
      .ok ⟨generation, .ofNat passIdx, fullPlane coefficients passIdx,
        if passIdx = 0 then some (presentPasses coefficients) else none⟩ := by
  simp only [cdf53PassCount] at hp
  have hidx : (UInt8.ofNat passIdx).toNat = passIdx :=
    UInt8.toNat_ofNat_of_lt' (by simp only [UInt8.size]; omega)
  have hplanes : ∀ head : Bytes, ∃ stop, walkChannels
      (head ++ (passPlanes coefficients passIdx).flatMap framePlane) expandStream [0, 1, 2]
      head.length (replicate 384 0) = .ok (fullPlane coefficients passIdx, stop) := fun head =>
    walkChannels_planes (length_extractBitPlane _ _) (length_extractBitPlane _ _)
      (length_extractBitPlane _ _)
  have hparse : parsePrefix (passPayload coefficients passIdx) (.ofNat passIdx) =
      .ok (if passIdx = 0 then some (presentPasses coefficients) else none,
        (if passIdx = 0 then be16 (presentPasses coefficients) else []).length) := by
    rw [parsePrefix, if_neg (by omega)]
    by_cases hzero : passIdx = 0
    · subst hzero
      have hread : be16At (passPayload coefficients 0) 0 = presentPasses coefficients :=
        be16At_append [] _ _
      have hbit : presentPasses coefficients &&& 1 ≠ 0 := by
        have hhas := hasBit_presentPasses coefficients (by decide : 0 < cdf53PassCount)
        simpa [hasBit] using hhas
      have hlong : ¬ (passPayload coefficients 0).length < 2 := by
        simp only [passPayload, if_true, length_append, length_be16]
        omega
      rw [if_neg (by decide), if_neg hlong, hread]
      simp [hbit]
    · have hne : UInt8.ofNat passIdx ≠ 0 := fun h => hzero (by rw [← hidx, h]; rfl)
      rw [if_pos hne]
      simp [hzero]
  obtain ⟨stop, hwalk⟩ := hplanes (if passIdx = 0 then be16 (presentPasses coefficients) else [])
  rw [prevalidateCdf53, hparse]
  simp only [passPayload, hwalk]

/-! ### The validators agree -/

/-- A stream of one plane is expanded in place. -/
theorem expandStream_eq {planes : Bytes} (hplanes : planes.length = 384) {ch : ℕ} (hch : ch < 3)
    (rle : Bytes) :
    expandStream planes ch rle = (checkStream () ch rle).map fun _ =>
      planes.take (ch * 128) ++ rleDecode rle ++ planes.drop (ch * 128 + 128) := by
  have hslot : ((planes.drop (ch * 128)).take 128).length = 128 := by
    rw [length_take, length_drop]
    omega
  obtain ⟨hlen, hinto⟩ := rleDecodeInto_eq rle hslot
  simp only [expandStream, checkStream, hlen, hinto]
  by_cases hone : min (rleDecode rle).length 129 = 128
  · have hdecoded : (rleDecode rle).length = 128 := by omega
    simp [hdecoded, Except.map]
  · simp [hone, Except.map]

/-- What replaces a plane is a plane. -/
theorem length_expanded {planes rle : Bytes} {ch : ℕ} {u : Unit} (hplanes : planes.length = 384)
    (hch : ch < 3) (h : checkStream () ch rle = .ok u) :
    (rleDecode rle).length = 128 ∧
      (planes.take (ch * 128) ++ rleDecode rle ++ planes.drop (ch * 128 + 128)).length = 384 := by
  have hlen : (rleDecode rle).length = 128 := by
    rw [checkStream] at h
    split_ifs at h with hone
    rw [not_not, (rleDecodeInto_eq rle (length_replicate (n := 128) (a := 0))).1] at hone
    omega
  refine ⟨hlen, ?_⟩
  simp only [length_append, length_take, length_drop, hlen]
  omega

/-- The walk that checks and the walk that expands go the same way. -/
theorem walkChannels_check (payload : Bytes) (chs : List ℕ) (hchs : ∀ ch ∈ chs, ch < 3) :
    ∀ (offset : ℕ) (planes : Bytes), planes.length = 384 →
      walkChannels payload checkStream chs offset () =
        (walkChannels payload expandStream chs offset planes).map fun r => ((), r.2) := by
  induction chs with
  | nil => exact fun _ _ _ => rfl
  | cons ch chs ih =>
    intro offset planes hplanes
    simp only [walkChannels]
    split_ifs
    · rfl
    · rfl
    · rw [expandStream_eq hplanes (hchs ch mem_cons_self)]
      cases hcheck : checkStream () ch _ with
      | error e => rfl
      | ok u =>
        exact ih (fun ch' hch' => hchs ch' (mem_cons_of_mem _ hch')) _ _
          (length_expanded hplanes (hchs ch mem_cons_self) hcheck).2

/-- Planes that agree up to the first channel to be expanded expand alike. -/
theorem walkChannels_expand (payload : Bytes) (n : ℕ) :
    ∀ {k offset : ℕ} {planes planes' : Bytes}, k + n = 3 → planes.length = 384 →
      planes'.length = 384 → planes.take (k * 128) = planes'.take (k * 128) →
      walkChannels payload expandStream (range' k n) offset planes =
        walkChannels payload expandStream (range' k n) offset planes' := by
  induction n with
  | zero =>
    intro k offset planes planes' hk h h' heq
    rw [take_of_length_le (by omega), take_of_length_le (by omega)] at heq
    rw [heq]
  | succ n ih =>
    intro k offset planes planes' hk h h' heq
    simp only [range'_succ, walkChannels]
    split_ifs
    · rfl
    · rfl
    · rw [expandStream_eq h (by omega), expandStream_eq h' (by omega), heq]
      cases hcheck : checkStream () k _ with
      | error e => rfl
      | ok u =>
        obtain ⟨hlen, hnext⟩ := length_expanded h (by omega) hcheck
        obtain ⟨-, hnext'⟩ := length_expanded h' (by omega) hcheck
        rw [heq] at hnext
        refine ih (by omega) hnext hnext' ?_
        rw [take_left', take_left'] <;> rw [length_append, length_take, hlen] <;> omega

/-- The walk reads nothing before its start nor behind its stop. -/
theorem walkChannels_slice {σ : Type*} {each : σ → ℕ → Bytes → Except DecodeErrorCode σ}
    {payload : Bytes} {start stop : ℕ} {s' : σ} (chs : List ℕ) :
    ∀ {offset : ℕ} {s : σ}, start ≤ offset → offset ≤ payload.length →
      walkChannels payload each chs offset s = .ok (s', stop) →
      offset ≤ stop ∧ stop ≤ payload.length ∧
        walkChannels ((payload.take stop).drop start) each chs (offset - start) s =
          .ok (s', stop - start) := by
  induction chs with
  | nil =>
    intro offset s _ hin h
    cases h
    exact ⟨le_rfl, hin, rfl⟩
  | cons ch chs ih =>
    intro offset s hstart _ h
    simp only [walkChannels] at h
    split_ifs at h with htwo hlen
    cases heach : each s ch ((payload.drop (offset + 2)).take (be16At payload offset).toNat) with
    | error e =>
      rw [heach] at h
      cases h
    | ok s1 =>
      rw [heach] at h
      obtain ⟨hle, hstop, hrest⟩ := ih (by omega) (by omega) h
      -- the slice has the bytes of the payload, `start` further to the front
      have hget : ∀ i, start ≤ i → i < stop →
          ((payload.take stop).drop start).getD (i - start) 0 = payload.getD i 0 := by
        intro i hi hlt
        simp [getD_eq_getElem?_getD, Nat.add_sub_cancel' hi, hlt]
      have hread : be16At ((payload.take stop).drop start) (offset - start) =
          be16At payload offset := by
        rw [be16At, be16At, hget offset hstart (by omega),
          show offset - start + 1 = offset + 1 - start by omega,
          hget (offset + 1) (by omega) (by omega)]
      have hbody : (((payload.take stop).drop start).drop (offset - start + 2)).take
          (be16At payload offset).toNat =
            (payload.drop (offset + 2)).take (be16At payload offset).toNat := by
        rw [drop_drop, show start + (offset - start + 2) = offset + 2 by omega, drop_take,
          take_take, Nat.min_eq_left (by omega)]
      have hslice : ((payload.take stop).drop start).length = stop - start := by
        rw [length_drop, length_take, Nat.min_eq_left hstop]
      refine ⟨by omega, hstop, ?_⟩
      rw [walkChannels]
      simp only [hread, hslice, hbody, heach]
      rw [if_neg (by omega), if_neg (by omega),
        show offset - start + 2 + (be16At payload offset).toNat =
          offset + 2 + (be16At payload offset).toNat - start by omega]
      exact hrest

/-- **The two validators agree**: they refuse the same passes for the same reason, and decoding what
`validate_cdf53` keeps, into any planes, gives those of `prevalidate_cdf53`. -/
theorem cdf53_validators_agree (payload : Bytes) (generation passIdx : UInt8)
    (buf : List.Vector UInt8 384) :
    match validateCdf53 payload passIdx, prevalidateCdf53 payload generation passIdx with
    | .error e, .error e' => e = e'
    | .ok info, .ok pre => info.presentPasses = pre.presentPasses ∧
        decodeCdf53Wire ((payload.take info.streamsEnd).drop info.streamsStart) buf.toList =
          .ok pre.bitPlanes
    | .error _, .ok _ => False
    | .ok _, .error _ => False := by
  unfold validateCdf53 prevalidateCdf53
  cases hparse : parsePrefix payload passIdx with
  | error e => exact rfl
  | ok parsed =>
    obtain ⟨presentPasses, start⟩ := parsed
    have hstart : start ≤ payload.length := by
      unfold parsePrefix at hparse
      simp only at hparse
      split_ifs at hparse with _ _ hshort
      · cases hparse
        exact Nat.zero_le _
      · cases hparse
        omega
    simp only [walkChannels_check payload [0, 1, 2] (by decide) start (replicate 384 0)
      length_replicate]
    cases hplanes : walkChannels payload expandStream [0, 1, 2] start (replicate 384 0) with
    | error e => exact rfl
    | ok walked =>
      obtain ⟨planes, stop⟩ := walked
      obtain ⟨-, -, hslice⟩ := walkChannels_slice [0, 1, 2] le_rfl hstart hplanes
      refine ⟨rfl, ?_⟩
      rw [Nat.sub_self] at hslice
      have hbuf := @walkChannels_expand ((payload.take stop).drop start) 3 0 0 _ _
        rfl buf.toList_length (length_replicate (n := 384) (a := 0)) rfl
      rw [show range' 0 3 = [0, 1, 2] from rfl, hslice] at hbuf
      simp only [decodeCdf53Wire, hbuf]

/-! ### Delivery -/

/-- Validate a pass and integrate it into its tile. -/
def deliver (generation tileX tileY : UInt8) (st : Cdf53TileState) (pass : UInt8 × Bytes) :
    Cdf53TileState × Option Bytes :=
  match prevalidateCdf53 pass.2 generation pass.1 with
  | .error _ => (st, none)
  | .ok entry => st.integrateBgr tileX tileY entry

/-- The pictures returned for a sequence of passes. -/
def pictures (generation tileX tileY : UInt8) : Cdf53TileState → List (UInt8 × Bytes) → List Bytes
  | _, [] => []
  | st, pass :: rest =>
    let delivered := deliver generation tileX tileY st pass
    delivered.2.toList ++ pictures generation tileX tileY delivered.1 rest

/-- Storing a pass and drawing, seen from the tile's entry. -/
theorem integrateBgr_eq (st : Cdf53TileState) (tileX tileY : UInt8) (entry : PrevalidatedCdf53) :
    (st.integrateBgr tileX tileY entry).2 = (st.accumulated tileX tileY entry).reconstruct.2 ∧
      (st.integrateBgr tileX tileY entry).1.tiles.get? (tileX, tileY) =
        some (st.accumulated tileX tileY entry).reconstruct.1 := by
  unfold integrateBgr
  by_cases hdrawn : (st.accumulated tileX tileY entry).drawnPrefix =
      some (st.accumulated tileX tileY entry).prefixLen
  · have hsame : (st.accumulate tileX tileY entry).2 = false := by
      simp [accumulate, hdrawn]
    simp only [hsame, Bool.false_eq_true, if_false, TileEntry.reconstruct, if_pos hdrawn]
    exact ⟨trivial, Dict.get?_insert_self ..⟩
  · have hnew : (st.accumulate tileX tileY entry).2 = true := by
      simp [accumulate, hdrawn]
    have hget : (st.accumulate tileX tileY entry).1.tiles.get? (tileX, tileY) =
        some (st.accumulated tileX tileY entry) := Dict.get?_insert_self ..
    simp only [hnew, if_true, reconstruct, hget]
    exact ⟨trivial, Dict.get?_insert_self ..⟩

/-! ### What a tile's entry holds -/

section Tile

variable (coefficients : List ℤ) (generation : UInt8)

/-- The entry of a tile of which the passes `seen` have arrived. -/
structure Received (tile : TileEntry) (seen : List ℕ) : Prop where
  generationSet : tile.generationSet = true
  generationEq : tile.generation = generation
  length : tile.planes.length = cdf53PassCount
  planes : ∀ p < cdf53PassCount,
    tile.planes[p]? = some (if p ∈ seen then some (fullPlane coefficients p) else none)
  received : ∀ p < cdf53PassCount, hasBit tile.received p = decide (p ∈ seen)
  present : tile.presentPasses = if 0 ∈ seen then some (presentPasses coefficients) else none

/-- The pass `p` as it comes out of validation. -/
def passEntry (p : ℕ) : PrevalidatedCdf53 :=
  ⟨generation, .ofNat p, fullPlane coefficients p,
    if p = 0 then some (presentPasses coefficients) else none⟩

variable {coefficients generation}

theorem received_fresh :
    Received coefficients generation { generation := generation, generationSet := true } [] := by
  refine ⟨rfl, rfl, rfl, fun p hp => ?_, fun p _ => by simp, rfl⟩
  simp [hp]

variable {tile : TileEntry} {seen : List ℕ} {p : ℕ}

theorem Received.switchTo (h : Received coefficients generation tile seen) :
    tile.switchTo generation = tile := by
  rw [TileEntry.switchTo, if_neg]
  simp [h.generationSet, h.generationEq]

theorem Received.store (h : Received coefficients generation tile seen) (hp : p < cdf53PassCount) :
    Received coefficients generation (tile.store (passEntry coefficients generation p))
      (p :: seen) := by
  have hidx : (passEntry coefficients generation p).passIdx.toNat = p := by
    simp only [cdf53PassCount] at hp
    exact UInt8.toNat_ofNat_of_lt' (by simp only [UInt8.size]; omega)
  obtain ⟨hplanes, hrec, hpres, hgen, hset, -⟩ :=
    tile.store_spec
      (by rw [hidx]; exact hp : (passEntry coefficients generation p).passIdx.toNat < _)
  rw [hidx] at hplanes hrec
  refine ⟨hset.trans h.generationSet, hgen.trans h.generationEq, ?_, fun q hq => ?_,
    fun q hq => ?_, ?_⟩
  · rw [hplanes, length_set, h.length]
  · rw [hplanes, getElem?_set]
    by_cases hqp : p = q
    · subst hqp
      have hlt : p < tile.planes.length := by
        rw [h.length]
        exact hq
      rw [if_pos rfl, if_pos hlt, if_pos mem_cons_self]
      rfl
    · rw [if_neg hqp, h.planes q hq]
      simp only [mem_cons, Ne.symm hqp, false_or]
  · simp only [cdf53PassCount] at hp hq
    rw [hrec, hasBit_withBit _ (by omega) (by omega), h.received q hq, Bool.eq_iff_iff]
    simp only [Bool.or_eq_true, decide_eq_true_eq, mem_cons]
    exact or_comm
  · rw [hpres, h.present]
    show (if p = 0 then some (presentPasses coefficients) else none).or _ = _
    by_cases hzero : p = 0
    · simp [hzero]
    · simp [hzero, Ne.symm hzero]

/-- Drawing changes only what was drawn last. -/
theorem Received.reconstruct (h : Received coefficients generation tile seen) :
    Received coefficients generation tile.reconstruct.1 seen := by
  unfold TileEntry.reconstruct
  simp only
  split_ifs
  · exact h
  · exact h
  · exact ⟨h.generationSet, h.generationEq, h.length, h.planes, h.received, h.present⟩

/-- A pass is resolved when it has arrived or is known not to come. -/
def Resolved (coefficients : List ℤ) (seen : List ℕ) (p : ℕ) : Prop :=
  p ∈ seen ∨ 0 ∈ seen ∧ hasBit (presentPasses coefficients) p = false

theorem length_takeWhile_range {n : ℕ} {f : ℕ → Bool} :
    ((List.range n).takeWhile f).length = n ↔ ∀ p < n, f p = true := by
  constructor
  · intro h p hp
    have hall : (range n).takeWhile f = range n :=
      List.IsPrefix.eq_of_length ( takeWhile_prefix f) (by rw [h, length_range])
    exact takeWhile_eq_self_iff.1 hall p (mem_range.2 hp)
  · intro h
    rw [takeWhile_eq_self_iff.2 fun p hp => h p (mem_range.1 hp), length_range]

theorem Received.prefixLen_eq_iff (h : Received coefficients generation tile seen) :
    tile.prefixLen = cdf53PassCount ↔ ∀ p < cdf53PassCount, Resolved coefficients seen p := by
  rw [TileEntry.prefixLen, resolvedPrefix, h.present, length_takeWhile_range]
  refine forall₂_congr fun p hp => ?_
  have hp16 : p < 16 := by
    simp only [cdf53PassCount] at hp
    omega
  by_cases hzero : 0 ∈ seen
  · rw [if_pos hzero]
    simp only [resolvedMask, hasBit_or _ _ hp16, hasBit_not _ hp16, h.received p hp, Resolved,
      hzero, true_and]
    simp
  · rw [if_neg hzero]
    simp only [resolvedMask, h.received p hp, Resolved, hzero, false_and, or_false,
      decide_eq_true_eq]

/-- Once every pass is resolved, the planes are those of the coefficients. -/
theorem Received.prefixPlanes_eq (h : Received coefficients generation tile seen)
    (hfull : tile.prefixLen = cdf53PassCount) : tile.prefixPlanes = allPlanes coefficients := by
  have hres := h.prefixLen_eq_iff.1 hfull
  rw [TileEntry.prefixPlanes, hfull, take_of_length_le (by rw [h.length]), allPlanes]
  have hlen : (tile.planes.map fun p => p.getD (replicate 384 0)).length = cdf53PassCount := by
    rw [length_map, h.length]
  have hlen' : ((range cdf53PassCount).map (fullPlane coefficients)).length =
      cdf53PassCount := by
    rw [length_map, length_range]
  refine ext_getElem (hlen.trans hlen'.symm) fun p hp _ => ?_
  have hlt : p < cdf53PassCount := hlen ▸ hp
  have hplane := h.planes p hlt
  rw [getElem?_eq_getElem (by rw [h.length]; exact hlt), Option.some.injEq] at hplane
  rw [getElem_map, getElem_map, getElem_range, hplane]
  by_cases hseen : p ∈ seen
  · rw [if_pos hseen]
    rfl
  · -- a pass that never comes has nothing but zeros in its plane
    rw [if_neg hseen]
    rcases hres p hlt with hin | ⟨-, habsent⟩
    · exact absurd hin hseen
    · exact (fullPlane_of_not_present hlt habsent).symm

theorem Resolved.mono {seen' : List ℕ} (hsub : seen ⊆ seen') (h : Resolved coefficients seen p) :
    Resolved coefficients seen' p := by
  rcases h with hin | ⟨hzero, habsent⟩
  · exact .inl (hsub hin)
  · exact .inr ⟨hsub hzero, habsent⟩

/-- What has been shown of a tile: the complete picture is drawn as soon as there is one, and
nothing is drawn after it. -/
structure Shown (tile : TileEntry) (shown : List Bytes) (picture : Bytes) : Prop where
  last : tile.drawnPrefix = some cdf53PassCount →
    tile.prefixLen = cdf53PassCount ∧ shown.getLast? = some picture
  complete : tile.prefixLen = cdf53PassCount → tile.drawnPrefix = some cdf53PassCount

/-- Drawing after a pass was stored. -/
theorem Shown.reconstruct {stored : TileEntry} {shown : List Bytes} {picture : Bytes}
    (h : Shown tile shown picture) (hdrawn : stored.drawnPrefix = tile.drawnPrefix)
    (hmono : tile.prefixLen = cdf53PassCount → stored.prefixLen = cdf53PassCount)
    (hpicture : stored.prefixLen = cdf53PassCount →
      inverse (decodePlanes stored.prefixPlanes) = picture) :
    Shown stored.reconstruct.1 (shown ++ stored.reconstruct.2.toList) picture := by
  have hsame : ∀ t : TileEntry, t.drawnPrefix = stored.drawnPrefix →
      t.prefixLen = stored.prefixLen → t.drawnPrefix = some cdf53PassCount →
        t.prefixLen = cdf53PassCount ∧ shown.getLast? = some picture := by
    intro t htd htp ht
    have hold := h.last (hdrawn ▸ htd ▸ ht)
    exact ⟨htp.trans (hmono hold.1), hold.2⟩
  unfold TileEntry.reconstruct
  simp only
  split_ifs with hnow hempty
  · -- nothing new to draw
    refine ⟨fun ht => ?_, fun hfull => ?_⟩
    · simpa using hsame stored rfl rfl ht
    · rw [hnow, hfull]
  · -- a prefix without content
    refine ⟨fun ht => ?_, fun hfull => ?_⟩
    · simpa using hsame stored rfl rfl ht
    · simp only at hfull
      omega
  · refine ⟨fun ht => ?_, fun hfull => ?_⟩
    · simp only [Option.some.injEq] at ht
      have hfull : stored.prefixLen = cdf53PassCount := ht
      refine ⟨hfull, ?_⟩
      simp [hpicture hfull]
    · have hfull' : stored.prefixLen = cdf53PassCount := hfull
      simp only [hfull']

/-- The state of the client when the passes `seen` of the tile have arrived and `shown` has been
shown. -/
def Integrated (coefficients : List ℤ) (generation tileX tileY : UInt8) (picture : Bytes)
    (st : Cdf53TileState) (seen : List ℕ) (shown : List Bytes) : Prop :=
  ∃ tile, ((st.tiles.get? (tileX, tileY)).getD {}).switchTo generation = tile ∧
    Received coefficients generation tile seen ∧ Shown tile shown picture

theorem integrated_new (tileX tileY : UInt8) (picture : Bytes) :
    Integrated coefficients generation tileX tileY picture .new [] [] := by
  have hnone : resolvedPrefix 0 none ≠ cdf53PassCount := by decide
  refine ⟨{ generation := generation, generationSet := true }, rfl, received_fresh,
    ⟨fun h => ?_, fun h => absurd h hnone⟩⟩
  cases h

/-- One pass is delivered. -/
theorem Integrated.deliver {tileX tileY : UInt8} {picture : Bytes} {st : Cdf53TileState}
    {shown : List Bytes} (h : Integrated coefficients generation tileX tileY picture st seen shown)
    (hpicture : inverse (decodePlanes (allPlanes coefficients)) = picture)
    (hp : p < cdf53PassCount) :
    Integrated coefficients generation tileX tileY picture
      (deliver generation tileX tileY st (.ofNat p, passPayload coefficients p)).1 (p :: seen)
      (shown ++
        (deliver generation tileX tileY st (.ofNat p, passPayload coefficients p)).2.toList) := by
  obtain ⟨tile, htile, hrec, hshown⟩ := h
  obtain ⟨hout, hget⟩ := integrateBgr_eq st tileX tileY (passEntry coefficients generation p)
  have hdeliver : Client.deliver generation tileX tileY st (.ofNat p, passPayload coefficients p) =
      st.integrateBgr tileX tileY (passEntry coefficients generation p) := by
    simp only [Client.deliver, prevalidateCdf53_passPayload coefficients generation hp]
    rfl
  have hstored : st.accumulated tileX tileY (passEntry coefficients generation p) =
      tile.store (passEntry coefficients generation p) := by
    rw [accumulated, ← htile]
    rfl
  rw [hstored] at hout hget
  have hrec' := hrec.store hp
  obtain ⟨-, -, -, -, -, hdrawn⟩ := tile.store_spec
    (by
      simp only [cdf53PassCount] at hp ⊢
      rw [show (passEntry coefficients generation p).passIdx.toNat = p from
        UInt8.toNat_ofNat_of_lt' (by simp only [UInt8.size]; omega)]
      exact hp : (passEntry coefficients generation p).passIdx.toNat < cdf53PassCount)
  have hmono : tile.prefixLen = cdf53PassCount →
      (tile.store (passEntry coefficients generation p)).prefixLen = cdf53PassCount := by
    intro hfull
    rw [hrec'.prefixLen_eq_iff]
    exact fun q hq => ((hrec.prefixLen_eq_iff.1 hfull) q hq).mono (subset_cons_self _ _)
  have hshown' := hshown.reconstruct hdrawn hmono fun hfull => by
    rw [hrec'.prefixPlanes_eq hfull, hpicture]
  rw [hdeliver, hout]
  refine ⟨_, ?_, hrec'.reconstruct, hshown'⟩
  rw [hget, Option.getD_some, hrec'.reconstruct.switchTo]

end Tile

/-- A run of passes of one tile. -/
theorem getLast?_pictures {coefficients : List ℤ} {generation tileX tileY : UInt8} {picture : Bytes}
    (hpicture : inverse (decodePlanes (allPlanes coefficients)) = picture)
    (passes : List (UInt8 × Bytes)) (st : Cdf53TileState) (seen : List ℕ) (shown : List Bytes)
    (h : Integrated coefficients generation tileX tileY picture st seen shown)
    (hsent : ∀ d ∈ passes, ∃ p < cdf53PassCount, d = (.ofNat p, passPayload coefficients p))
    (hall : ∀ p < cdf53PassCount, hasBit (presentPasses coefficients) p = true →
      p ∈ seen ∨ (.ofNat p, passPayload coefficients p) ∈ passes) :
    (shown ++ pictures generation tileX tileY st passes).getLast? = some picture := by
  induction passes generalizing st seen shown with
  | nil =>
    obtain ⟨tile, -, hrec, hshown⟩ := h
    have hseen : ∀ p < cdf53PassCount, hasBit (presentPasses coefficients) p = true → p ∈ seen :=
      fun p hp hbit => (hall p hp hbit).resolve_right not_mem_nil
    have hzero : 0 ∈ seen := by
      refine hseen 0 (by decide) ?_
      rw [hasBit_presentPasses coefficients (by decide)]
      rfl
    have hfull : tile.prefixLen = cdf53PassCount := by
      rw [hrec.prefixLen_eq_iff]
      intro p hp
      cases hbit : hasBit (presentPasses coefficients) p with
      | true => exact .inl (hseen p hp hbit)
      | false => exact .inr ⟨hzero, hbit⟩
    rw [pictures, append_nil]
    exact (hshown.last (hshown.complete hfull)).2
  | cons d passes ih =>
    obtain ⟨p, hp, rfl⟩ := hsent d mem_cons_self
    rw [pictures, ← append_assoc]
    refine ih _ (p :: seen) _ (h.deliver hpicture hp)
      (fun d hd => hsent d (mem_cons_of_mem _ hd)) fun q hq hbit => ?_
    rcases hall q hq hbit with hin | hin
    · exact .inl (mem_cons_of_mem _ hin)
    · rcases mem_cons.1 hin with heq | hin
      · have hidx : (UInt8.ofNat q).toNat = (UInt8.ofNat p).toNat :=
          congrArg UInt8.toNat (Prod.mk.inj heq).1
        simp only [cdf53PassCount] at hp hq
        rw [UInt8.toNat_ofNat_of_lt' (by simp only [UInt8.size]; omega),
          UInt8.toNat_ofNat_of_lt' (by simp only [UInt8.size]; omega)] at hidx
        exact .inl (hidx ▸ mem_cons_self)
      · exact .inr hin

/-- **CDF 5/3 is lossless end to end.** The coefficients of a tile keep to thirteen magnitude bits,
before and after the cast to `i16`; every pass sent is accepted; and once every present pass has
been delivered, in any order and any number of times, the last picture is the tile. -/
theorem cdf53_lossless (tileBgra : Bytes) (generation tileX tileY : UInt8)
    (deliveries : List (UInt8 × Bytes))
    (hsent : ∀ d ∈ deliveries, d ∈ (encodePassesSparse (forward tileBgra)).2)
    (hall : ∀ d ∈ (encodePassesSparse (forward tileBgra)).2, d ∈ deliveries) :
    (∀ ch, ∀ y < 32, ∀ x < 32, |forwardLevels 3 32 (loadChannel tileBgra ch) y x| ≤ 8191) ∧
      (∀ c ∈ forward tileBgra, |c| ≤ 8191) ∧
      (∀ d ∈ deliveries, ∃ entry, prevalidateCdf53 d.2 generation d.1 = .ok entry) ∧
      (pictures generation tileX tileY .new deliveries).getLast? = some (bgrOf tileBgra) := by
  have hsmall : ∀ c ∈ forward tileBgra, |c| ≤ 8191 := by
    intro c hc
    obtain ⟨ch, -, hc⟩ := mem_flatMap.1 hc
    exact abs_forwardChannel_le tileBgra ch c hc
  have hlen : (forward tileBgra).length = cdf53TotalCoeffs := by
    rw [forward_eq]
    simp only [length_append, length_forwardChannel]
    rfl
  have hpass : ∀ d ∈ deliveries, ∃ p < cdf53PassCount,
      d = (.ofNat p, passPayload (forward tileBgra) p) := by
    intro d hd
    obtain ⟨p, hp, -, hidx, hpayload⟩ := mem_encodePassesSparse.1 (hsent d hd)
    exact ⟨p, hp, Prod.ext hidx hpayload⟩
  refine ⟨fun ch y hy x hx =>
    abs_forwardLevels_le (fun y _ x _ => abs_loadChannel_le tileBgra ch y x) hy hx, hsmall, ?_, ?_⟩
  · intro d hd
    obtain ⟨p, hp, rfl⟩ := hpass d hd
    exact ⟨_, prevalidateCdf53_passPayload _ generation hp⟩
  · refine getLast?_pictures ?_ deliveries .new [] [] (integrated_new tileX tileY _) hpass
      fun p hp hbit => .inr (hall _ (mem_encodePassesSparse.2 ⟨p, hp, hbit, rfl, rfl⟩))
    rw [decodePlanes_allPlanes hlen hsmall, inverse_forward]

/-- A white tile whose passes arrive last to first, and then once more. -/
theorem cdf53_lossless_white :
    (pictures 3 1 2 .new
      ((encodePassesSparse (forward (List.replicate 4096 255))).2.reverse ++
        (encodePassesSparse (forward (List.replicate 4096 255))).2)).getLast? =
      some (bgrOf (List.replicate 4096 255)) := by
  refine (cdf53_lossless (replicate 4096 255) 3 1 2 _ (fun d hd => ?_) fun d hd => ?_).2.2.2
  · rcases mem_append.1 hd with hd | hd
    · exact mem_reverse.1 hd
    · exact hd
  · exact mem_append_right _ hd

end Ghostframe.Client
