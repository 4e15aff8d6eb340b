import Ghostframe.Codec.Cdf53

/-!
# Bit planes and run lengths lose nothing

* `decodePlanes_firstPlanes`: what the first planes say of coefficients of at most
  thirteen magnitude bits; all fourteen recover them;
* `rle_codec_agrees`: the three decoders of run lengths agree on every byte string, and
  undo the encoder;
* `mem_presentPasses`: what the bitmap of present passes says; a pass that is not
  present has nothing but zeros in its planes.
-/

namespace Ghostframe.Codec

open List Nat

/-! ### Planes -/

variable {coefficients : List ℤ} {out : Bytes} {n ch i : ℕ}

theorem bitAt_append_left {xs ys : Bytes} (hi : i / 8 < xs.length) :
    bitAt (xs ++ ys) i = bitAt xs i := by
  rw [bitAt, bitAt, getD_append _ _ _ _ hi]

theorem bitAt_extractBitPlane {channel : List ℤ} (hlen : channel.length = cdf53CoeffsPerChannel)
    (passIdx : ℕ) (hi : i < cdf53CoeffsPerChannel) :
    bitAt (extractBitPlane channel passIdx) i = planeBit passIdx (channel.getD i 0) := by
  have hlen' : (channel.map (planeBit passIdx)).length = 1024 := by rw [length_map, hlen]; rfl
  rw [extractBitPlane, bitAt_packBits (by rw [hlen']; decide)]
  rw [getD_eq_getElem _ _ (by rw [hlen']; exact hi), getElem_map,
    getD_eq_getElem _ _ (by rw [hlen]; exact hi)]

theorem length_extractBitPlane (channel : List ℤ) (passIdx : ℕ) :
    (extractBitPlane channel passIdx).length = 128 := length_packBits _ _

theorem length_channelOf (hlen : coefficients.length = cdf53TotalCoeffs)
    (hch : ch < cdf53Channels) :
    (channelOf coefficients ch).length = cdf53CoeffsPerChannel := by
  rw [channelOf, length_take, length_drop, hlen]
  simp only [cdf53TotalCoeffs, cdf53Channels, cdf53CoeffsPerChannel] at hch ⊢
  omega

theorem passPlanes_eq (coefficients : List ℤ) (passIdx : ℕ) :
    passPlanes coefficients passIdx =
      [extractBitPlane (channelOf coefficients 0) passIdx,
        extractBitPlane (channelOf coefficients 1) passIdx,
        extractBitPlane (channelOf coefficients 2) passIdx] := rfl

/-- The plane of one pass, the three channels one after the other. -/
def fullPlane (coefficients : List ℤ) (passIdx : ℕ) : Bytes :=
  (passPlanes coefficients passIdx).flatten

theorem length_fullPlane (coefficients : List ℤ) (passIdx : ℕ) :
    (fullPlane coefficients passIdx).length = 384 := by
  simp [fullPlane, passPlanes_eq, length_extractBitPlane]

/-- A bit of a channel's part of the plane. -/
theorem bitAt_fullPlane (hlen : coefficients.length = cdf53TotalCoeffs) (passIdx : ℕ)
    (hch : ch < cdf53Channels) (hi : i < cdf53CoeffsPerChannel) :
    bitAt ((fullPlane coefficients passIdx).drop (ch * bitPlaneBytesPerChannel)) i =
      planeBit passIdx ((channelOf coefficients ch).getD i 0) := by
  have hbyte : i / 8 < 128 := by
    simp only [cdf53CoeffsPerChannel] at hi
    omega
  have hdrop : ∃ rest, (fullPlane coefficients passIdx).drop (ch * bitPlaneBytesPerChannel) =
      extractBitPlane (channelOf coefficients ch) passIdx ++ rest := by
    have hl := fun ch => length_extractBitPlane (channelOf coefficients ch) passIdx
    rw [fullPlane, passPlanes_eq]
    simp only [cdf53Channels] at hch
    interval_cases ch
    · exact ⟨_, rfl⟩
    · refine ⟨extractBitPlane (channelOf coefficients 2) passIdx, ?_⟩
      simp [bitPlaneBytesPerChannel, cdf53CoeffsPerChannel, hl]
    · refine ⟨[], ?_⟩
      simp [bitPlaneBytesPerChannel, cdf53CoeffsPerChannel, drop_append, hl]
  obtain ⟨rest, hrest⟩ := hdrop
  rw [hrest, bitAt_append_left (by rw [length_extractBitPlane]; exact hbyte),
    bitAt_extractBitPlane (length_channelOf hlen hch) passIdx hi]

/-! ### Magnitudes -/

/-- A loop that sets bits of a number. -/
theorem testBit_foldl_setBit {β : Type*} (cond : β → Bool) (pos : β → ℕ) (l : List β) (m j : ℕ) :
    (l.foldl (fun m e => if cond e then m ||| (1 <<< pos e) else m) m).testBit j =
      (m.testBit j || l.any fun e => cond e && decide (pos e = j)) := by
  induction l generalizing m with
  | nil => simp
  | cons e l ih =>
    rw [foldl_cons, ih, any_cons, ← Bool.or_assoc]
    cases hc : cond e with
    | false => simp
    | true =>
      rw [if_pos rfl, testBit_or, one_shiftLeft, testBit_two_pow]
      simp

/-- The first `k` planes. -/
def firstPlanes (coefficients : List ℤ) (k : ℕ) : List Bytes :=
  (List.range k).map (fullPlane coefficients)

/-- All fourteen planes. -/
def allPlanes (coefficients : List ℤ) : List Bytes :=
  (List.range cdf53PassCount).map (fullPlane coefficients)

theorem zipIdx_map_range {α : Type*} (f : ℕ → α) (k : ℕ) :
    ((List.range k).map f).zipIdx = (List.range k).map fun i => (f i, i) := by
  refine ext_getElem (by simp) fun i h1 h2 => ?_
  simp

/-- **The magnitude is recovered down to the last plane**, when it has at most thirteen bits. -/
theorem planeMagnitude_firstPlanes {k : ℕ} (hlen : coefficients.length = cdf53TotalCoeffs)
    (hch : ch < cdf53Channels) (hi : i < cdf53CoeffsPerChannel)
    (hc : ((channelOf coefficients ch).getD i 0).natAbs < 2 ^ 13) (hk : k ≤ cdf53PassCount) :
    planeMagnitude (firstPlanes coefficients k) ch i =
      ((channelOf coefficients ch).getD i 0).natAbs >>> (14 - k) <<< (14 - k) := by
  refine eq_of_testBit_eq fun j => ?_
  set c := (channelOf coefficients ch).getD i 0 with hcdef
  rw [planeMagnitude, firstPlanes, zipIdx_map_range,
    testBit_foldl_setBit
      (fun e : Bytes × ℕ => bitAt (e.1.drop (ch * bitPlaneBytesPerChannel)) i && decide (e.2 ≠ 0))
      (fun e => 13 - e.2), zero_testBit, Bool.false_or, any_map, Bool.eq_iff_iff,
    any_eq_true, testBit_shiftLeft, testBit_shiftRight]
  simp only [Function.comp_apply, bitAt_fullPlane hlen _ hch hi, Bool.and_eq_true,
    decide_eq_true_eq, mem_range, ← hcdef]
  simp only [cdf53PassCount] at hk
  constructor
  · rintro ⟨p, hp, ⟨hbit, hp0⟩, rfl⟩
    rw [planeBit, if_neg hp0, decide_eq_true_eq, and_one_is_mod] at hbit
    refine ⟨by omega, ?_⟩
    rw [Nat.add_sub_cancel' (by omega), Nat.testBit_eq_decide_div_mod_eq, decide_eq_true_eq,
      ← shiftRight_eq_div_pow]
    omega
  · rintro ⟨hge, hbit⟩
    rw [Nat.add_sub_cancel' hge] at hbit
    have hj : j < 13 := by
      by_contra hge
      have hlt : c.natAbs < 2 ^ j := hc.trans_le (Nat.pow_le_pow_right (by decide) (by omega))
      rw [testBit_lt_two_pow hlt] at hbit
      exact Bool.noConfusion hbit
    refine ⟨13 - j, by omega, ⟨?_, by omega⟩, by omega⟩
    have hpos : 13 - (13 - j) = j := by omega
    rw [planeBit, if_neg (by omega), decide_eq_true_eq, hpos, and_one_is_mod]
    rw [testBit_eq_decide_div_mod_eq, decide_eq_true_eq, ← shiftRight_eq_div_pow] at hbit
    omega

theorem flatMap_channelOf (hlen : coefficients.length = cdf53TotalCoeffs) :
    (List.range cdf53Channels).flatMap (channelOf coefficients) = coefficients := by
  have hlast : (coefficients.drop (2 * 1024)).length = 1024 := by
    rw [length_drop, hlen]
    rfl
  simp only [cdf53Channels, range_succ, range_zero, nil_append, flatMap_append,
    flatMap_singleton, channelOf, cdf53CoeffsPerChannel]
  rw [take_of_length_le (by omega : (coefficients.drop (2 * 1024)).length ≤ 1024)]
  have h1 : (coefficients.drop (1 * 1024)).take 1024 ++ coefficients.drop (2 * 1024) =
      coefficients.drop (1 * 1024) := by
    rw [show 2 * 1024 = 1024 + 1 * 1024 from rfl, ← drop_drop, take_append_drop]
  rw [append_assoc, h1]
  simp

/-- A coefficient as its first `k` planes give it: the known bits, and the middle of the range of
the others. -/
def approximate (k : ℕ) (c : ℤ) : ℤ :=
  let magnitude := c.natAbs >>> (14 - k) <<< (14 - k)
  let known := if magnitude ≠ 0 ∧ midpoint k ≠ 0 then magnitude + midpoint k else magnitude
  if c < 0 then -(known : ℤ) else known

theorem shiftLeft_shiftRight_add_mod (m u : ℕ) : m >>> u <<< u + m % 2 ^ u = m := by
  rw [shiftRight_eq_div_pow, shiftLeft_eq, mul_comm, div_add_mod]

/-- **The first planes determine the coefficients approximately**, when they have at most thirteen
magnitude bits. -/
theorem decodePlanes_firstPlanes {k : ℕ} (hlen : coefficients.length = cdf53TotalCoeffs)
    (hsmall : ∀ c ∈ coefficients, |c| ≤ 8191) (hk1 : 1 ≤ k) (hk : k ≤ cdf53PassCount) :
    decodePlanes (firstPlanes coefficients k) = coefficients.map (approximate k) := by
  conv_rhs => rw [← flatMap_channelOf hlen, map_flatMap]
  unfold decodePlanes
  refine flatMap_congr fun ch hch => ?_
  have hch' : ch < cdf53Channels := mem_range.1 hch
  have hclen := length_channelOf hlen hch'
  refine ext_getElem (by simp [hclen]) fun i h1 h2 => ?_
  have hi : i < cdf53CoeffsPerChannel := by simpa using h1
  have hin : i < (channelOf coefficients ch).length := by simpa using h2
  have hget : (channelOf coefficients ch).getD i 0 = (channelOf coefficients ch)[i] :=
    getD_eq_getElem _ _ hin
  set c := (channelOf coefficients ch)[i] with hc
  have hmem : c ∈ coefficients :=
    mem_of_mem_drop (mem_of_mem_take (getElem_mem hin))
  have habs := abs_le.1 (hsmall c hmem)
  have hmag := planeMagnitude_firstPlanes hlen hch' hi (by omega) hk
  obtain ⟨k', rfl⟩ : ∃ k', k = k' + 1 := ⟨k - 1, by omega⟩
  have hsign : planeSign (firstPlanes coefficients (k' + 1)) ch i = decide (c < 0) := by
    rw [firstPlanes, range_succ_eq_map, map_cons]
    show bitAt ((fullPlane coefficients 0).drop (ch * bitPlaneBytesPerChannel)) i = _
    rw [bitAt_fullPlane hlen 0 hch' hi, hget]
    rfl
  have hplanes : (firstPlanes coefficients (k' + 1)).length = k' + 1 := by simp [firstPlanes]
  rw [hget] at hmag
  simp only [getElem_map, getElem_range, hmag, hsign, hplanes, decide_eq_true_eq,
    approximate, ← hc]
  have hknown : (if c.natAbs >>> (14 - (k' + 1)) <<< (14 - (k' + 1)) ≠ 0 ∧ midpoint (k' + 1) ≠ 0
      then c.natAbs >>> (14 - (k' + 1)) <<< (14 - (k' + 1)) + midpoint (k' + 1)
      else c.natAbs >>> (14 - (k' + 1)) <<< (14 - (k' + 1))) ≤ 32767 := by
    have hsum := shiftLeft_shiftRight_add_mod c.natAbs (14 - (k' + 1))
    have hmid : midpoint (k' + 1) ≤ 2 ^ 12 := by
      rw [midpoint, one_shiftLeft]
      split_ifs
      · exact Nat.pow_le_pow_right (by decide) (by simp only [cdf53PassCount]; omega)
      · exact zero_le _
    split_ifs <;> omega
  rw [min_eq_left hknown]

/-- **All fourteen planes determine the coefficients**, when they have at most thirteen magnitude
bits. -/
theorem decodePlanes_allPlanes (hlen : coefficients.length = cdf53TotalCoeffs)
    (hsmall : ∀ c ∈ coefficients, |c| ≤ 8191) :
    decodePlanes (allPlanes coefficients) = coefficients := by
  have hexact : ∀ c, approximate cdf53PassCount c = c := by
    intro c
    have hmid : midpoint cdf53PassCount = 0 := rfl
    simp only [approximate, hmid, ne_eq, not_true, and_false, if_false]
    rw [show 14 - cdf53PassCount = 0 from rfl, Nat.shiftRight_zero, Nat.shiftLeft_zero]
    split_ifs <;> omega
  have hfirst := decodePlanes_firstPlanes hlen hsmall (by decide) (le_refl cdf53PassCount)
  rw [funext hexact, map_id'] at hfirst
  exact hfirst

/-! ### Present passes -/

/-- Does a pass carry any set bit? -/
def carriesData (coefficients : List ℤ) (passIdx : ℕ) : Bool :=
  (passPlanes coefficients passIdx).any fun plane => plane.any fun b => decide (b ≠ 0)

/-- The loop over a list of passes. -/
theorem hasBit_foldl_present (data : ℕ → Bool) (l : List ℕ) (hl : ∀ p ∈ l, p < 16) (mask : UInt16)
    {j : ℕ} (hj : j < 16) :
    hasBit (l.foldl (fun present p => if data p then withBit present p else present) mask) j =
      (hasBit mask j || (decide (j ∈ l) && data j)) := by
  induction l generalizing mask with
  | nil => simp
  | cons p l ih =>
    have hp : p < 16 := hl p mem_cons_self
    rw [foldl_cons, ih fun q hq => hl q (mem_cons_of_mem _ hq)]
    by_cases hjp : j = p
    · subst hjp
      cases hdata : data j with
      | false => simp
      | true => simp [hasBit_withBit _ hp hj]
    · cases hdata : data p with
      | false => simp [hjp]
      | true => simp [hasBit_withBit _ hp hj, hjp]

/-- A pass is present when it carries data; pass 0 always is. -/
theorem hasBit_presentPasses (coefficients : List ℤ) {passIdx : ℕ} (hp : passIdx < cdf53PassCount) :
    hasBit (presentPasses coefficients) passIdx =
      (decide (passIdx = 0) || carriesData coefficients passIdx) := by
  simp only [cdf53PassCount] at hp
  have hfold := hasBit_foldl_present (carriesData coefficients) (range cdf53PassCount)
    (fun p hp => by
      have := mem_range.1 hp
      simp only [cdf53PassCount] at this
      omega) 1 (by omega : passIdx < 16)
  rw [hasBit_one (by omega)] at hfold
  have hin : decide (passIdx ∈ range cdf53PassCount) = true :=
    decide_eq_true (mem_range.2 hp)
  rw [hin, Bool.true_and] at hfold
  exact hfold

/-- A pass that is not present has nothing but zeros in its plane. -/
theorem fullPlane_of_not_present {passIdx : ℕ} (hp : passIdx < cdf53PassCount)
    (h : hasBit (presentPasses coefficients) passIdx = false) :
    fullPlane coefficients passIdx = List.replicate 384 0 := by
  rw [hasBit_presentPasses coefficients hp, Bool.or_eq_false_iff] at h
  rw [eq_replicate_iff]
  refine ⟨length_fullPlane coefficients passIdx, fun b hb => ?_⟩
  obtain ⟨plane, hplane, hb⟩ := mem_flatten.1 hb
  by_contra hne
  have hany : carriesData coefficients passIdx = true :=
    any_eq_true.2 ⟨plane, hplane, any_eq_true.2 ⟨b, hb, decide_eq_true hne⟩⟩
  rw [h.2] at hany
  exact Bool.noConfusion hany

/-- The passes sent are the present ones, each with its payload. -/
theorem mem_encodePassesSparse {idx : UInt8} {payload : Bytes} :
    (idx, payload) ∈ (encodePassesSparse coefficients).2 ↔
      ∃ passIdx < cdf53PassCount, hasBit (presentPasses coefficients) passIdx = true ∧
        idx = .ofNat passIdx ∧ payload = passPayload coefficients passIdx := by
  simp only [encodePassesSparse, mem_filterMap, mem_range]
  constructor
  · rintro ⟨passIdx, hp, hsome⟩
    split_ifs at hsome with hbit
    simp only [Option.some.injEq, Prod.mk.injEq] at hsome
    exact ⟨passIdx, hp, hbit, hsome.1.symm, hsome.2.symm⟩
  · rintro ⟨passIdx, hp, hbit, rfl, rfl⟩
    exact ⟨passIdx, hp, by rw [if_pos hbit]⟩

/-! ### Run lengths -/

theorem zeroRun_le (limit : ℕ) (data : Bytes) : zeroRun limit data ≤ limit := by
  induction limit generalizing data with
  | zero => simp [zeroRun]
  | succ limit ih =>
    cases data with
    | nil => simp [zeroRun]
    | cons b rest =>
      rw [zeroRun]
      split_ifs
      · exact succ_le_succ (ih rest)
      · exact zero_le _

/-- The counted bytes are there and are zero. -/
theorem take_zeroRun (limit : ℕ) (data : Bytes) :
    data.take (zeroRun limit data) = List.replicate (zeroRun limit data) 0 := by
  induction limit generalizing data with
  | zero => simp [zeroRun]
  | succ limit ih =>
    cases data with
    | nil => simp [zeroRun]
    | cons b rest =>
      rw [zeroRun]
      split_ifs with hb
      · rw [take_succ_cons, ih, hb, replicate_succ]
      · simp

theorem runToken_spec : ∀ m : Fin 128,
    (0x80 ||| UInt8.ofNat m) ≠ 0x7F ∧ (0x80 ||| UInt8.ofNat m) &&& 0x80 ≠ 0 ∧
      ((0x80 ||| UInt8.ofNat m) &&& 0x7F).toNat = m := by decide

theorem literal_spec {b : UInt8} (h : b < 0x7F) : b ≠ 0x7F ∧ b &&& 0x80 = 0 := by
  have hall : ∀ m : Fin 256, UInt8.ofNat m < 0x7F →
      UInt8.ofNat m ≠ 0x7F ∧ UInt8.ofNat m &&& 0x80 = 0 := by decide +kernel
  have hb := hall ⟨b.toNat, b.toNat_lt⟩
  simp only [UInt8.ofNat_toNat] at hb
  exact hb h

/-- `out` with `mid` written from `n` on. -/
def written (out : Bytes) (n : ℕ) (mid : Bytes) : Bytes :=
  out.take n ++ (mid ++ out.drop (n + mid.length))

theorem written_nil (out : Bytes) (n : ℕ) : written out n [] = out := by
  simp [written]

/-- Storing a byte at `n`, if there is room. -/
theorem storeByte_eq (hout : out.length = 128) (hn : n ≤ 128) (b : UInt8) :
    storeByte out n b = written out n ([b].take (128 - n)) := by
  rw [storeByte]
  split_ifs with hlt
  · rw [take_of_length_le (by simp; omega), written, set_eq_take_append_cons_drop,
      if_pos (by omega)]
    rfl
  · rw [show 128 - n = 0 by omega, take_zero, written_nil]

/-- Storing zeros from `n` on, as far as there is room. -/
theorem storeZeros_eq {run : ℕ} (hn : n ≤ 128) :
    storeZeros out n run = written out n ((List.replicate run 0).take (128 - n)) := by
  have hlen : min (n + run) 128 - n = min (128 - n) run := by omega
  rw [storeZeros, take_replicate, written, length_replicate, hlen]
  split_ifs with hlt
  · rw [append_assoc, show n + min (128 - n) run = min (n + run) 128 by omega]
  · rw [show min (128 - n) run = 0 by omega]
    simp

theorem length_written {mid : Bytes} (hout : out.length = 128) (hn : n + mid.length ≤ 128) :
    (written out n mid).length = 128 := by
  simp only [written, length_append, length_take, length_drop]
  omega

/-- Writing one piece after the other is writing both. -/
theorem written_written {mid rest : Bytes} (hout : out.length = 128) (hn : n + mid.length ≤ 128) :
    written (written out n mid) (n + mid.length) rest = written out n (mid ++ rest) := by
  have htake : (out.take n ++ mid).length = n + mid.length := by
    rw [length_append, length_take]
    omega
  have hsplit : written out n mid = (out.take n ++ mid) ++ out.drop (n + mid.length) :=
    (append_assoc ..).symm
  have hdrop : (out.take n ++ mid ++ out.drop (n + mid.length)).drop
      (n + mid.length + rest.length) = out.drop (n + (mid.length + rest.length)) := by
    rw [← htake, ← drop_drop, drop_left, drop_drop]
    congr 1
    omega
  have hfirst : (out.take n ++ mid ++ out.drop (n + mid.length)).take (n + mid.length) =
      out.take n ++ mid := by
    rw [← htake, take_left]
  rw [written, hsplit, hfirst, hdrop, written, append_assoc, append_assoc,
    length_append]

/-- `rle_decode`. -/
def rleDecode : Bytes → Bytes
  | [] => []
  | token :: rest =>
    if token = 0x7F then
      match rest with
      | [] => []
      | b :: rest' => b :: rleDecode rest'
    else if token &&& 0x80 ≠ 0 then
      List.replicate ((token &&& 0x7F).toNat + 1) 0 ++ rleDecode rest
    else token :: rleDecode rest

/-- **Decoding undoes encoding.** -/
theorem rleDecode_rleEncode (data : Bytes) : rleDecode (rleEncode data) = data := by
  induction data using rleEncode.induct with
  | case1 => simp [rleEncode, rleDecode]
  | case2 rest more ih =>
    have hzeros : rest.take more = replicate more 0 := take_zeroRun 127 rest
    obtain ⟨h1, h2, h3⟩ := runToken_spec ⟨more, lt_succ_of_le (zeroRun_le 127 rest)⟩
    rw [rleEncode, if_pos rfl]
    show rleDecode ((0x80 ||| UInt8.ofNat more) :: rleEncode (rest.drop more)) = _
    rw [rleDecode.eq_def]
    simp only [if_neg h1, if_pos h2, h3, ih]
    rw [replicate_succ, cons_append, ← hzeros, take_append_drop]
  | case3 b rest hb hlt ih =>
    obtain ⟨h1, h2⟩ := literal_spec hlt
    rw [rleEncode, if_neg hb, if_pos hlt, rleDecode.eq_def]
    simp only [if_neg h1, h2, ne_eq, not_true, if_false, ih]
  | case4 b rest hb hlt ih =>
    rw [rleEncode, if_neg hb, if_neg hlt, rleDecode.eq_def]
    simp only [if_true, ih]

/-- One token of the decoder: what it stands for is written as far as there is room. -/
theorem written_token (mid : Bytes) {rest : Bytes} {f : Bytes → ℕ → Bytes × ℕ}
    (hout : out.length = 128) (hn : n ≤ 128)
    (hrest : ∀ out' n', out'.length = 128 → n' ≤ 128 →
      f out' n' = (written out' n' (rest.take (128 - n')), min (n' + rest.length) 129)) :
    (if n + mid.length > 128 then (written out n (mid.take (128 - n)), 129)
      else f (written out n (mid.take (128 - n))) (n + mid.length)) =
      (written out n ((mid ++ rest).take (128 - n)), min (n + (mid ++ rest).length) 129) := by
  rw [length_append]
  split_ifs with hfull
  · rw [take_append_of_le_length (by omega), min_eq_right (by omega)]
  · have hall : mid.take (128 - n) = mid := take_of_length_le (by omega)
    have htake : (mid ++ rest).take (128 - n) = mid ++ rest.take (128 - (n + mid.length)) := by
      rw [List.take_append, hall, Nat.sub_sub]
    rw [hall, hrest _ _ (length_written hout (by omega)) (by omega),
      written_written hout (by omega), htake, add_assoc]

/-- The decoder writes what the stream stands for, from `n` on. -/
theorem rleDecodeLoop_eq (rle out : Bytes) (n : ℕ) (hout : out.length = 128) (hn : n ≤ 128) :
    rleDecodeLoop rle out n =
      (written out n ((rleDecode rle).take (128 - n)), min (n + (rleDecode rle).length) 129) := by
  induction rle using rleDecode.induct generalizing out n with
  | case1 =>
    simp only [rleDecodeLoop, rleDecode, take_nil, length_nil]
    rw [written_nil, min_eq_left (by omega), add_zero]
  | case2 =>
    simp only [rleDecodeLoop, rleDecode, if_true, take_nil, length_nil]
    rw [written_nil, min_eq_left (by omega), add_zero]
  | case3 b rest ih =>
    rw [rleDecodeLoop.eq_def, rleDecode.eq_def]
    simp only [if_true, storeByte_eq hout hn b]
    exact written_token [b] hout hn ih
  | case4 token rest h1 h2 ih =>
    rw [rleDecodeLoop.eq_def, rleDecode.eq_def]
    simp only [if_neg h1, if_pos h2, storeZeros_eq hn]
    have hlen : (replicate ((token &&& 0x7F).toNat + 1) (0 : UInt8)).length =
      (token &&& 0x7F).toNat + 1 := length_replicate
    have htoken := written_token (replicate ((token &&& 0x7F).toNat + 1) 0) hout hn ih
    rw [hlen] at htoken
    exact htoken
  | case5 token rest h1 h2 ih =>
    rw [rleDecodeLoop.eq_def, rleDecode.eq_def]
    simp only [if_neg h1, if_neg h2, storeByte_eq hout hn token]
    exact written_token [token] hout hn ih

theorem token_spec {token : UInt8} (h : token ≠ 0x7F) :
    (token.toNat >>> 7) * (token.toNat &&& 0x7F) =
      if token &&& 0x80 ≠ 0 then (token &&& 0x7F).toNat else 0 := by
  have hall : ∀ m : Fin 256, UInt8.ofNat m ≠ 0x7F →
      ((UInt8.ofNat m).toNat >>> 7) * ((UInt8.ofNat m).toNat &&& 0x7F) =
        if UInt8.ofNat m &&& 0x80 ≠ 0 then (UInt8.ofNat m &&& 0x7F).toNat else 0 := by
    decide +kernel
  have htoken := hall ⟨token.toNat, token.toNat_lt⟩
  simp only [UInt8.ofNat_toNat] at htoken
  exact htoken h

theorem rleExpandedLoop_eq (rle : Bytes) (n : ℕ) :
    rleExpandedLoop rle n = n + (rleDecode rle).length := by
  induction rle using rleDecode.induct generalizing n with
  | case1 => rfl
  | case2 => rfl
  | case3 b rest ih =>
    rw [rleExpandedLoop.eq_def, rleDecode.eq_def]
    simp only [if_true, ih, length_cons]
    exact add_right_comm n 1 _
  | case4 token rest h1 h2 ih =>
    rw [rleExpandedLoop.eq_def, rleDecode.eq_def]
    simp only [if_neg h1, if_pos h2, token_spec h1, ih, length_append, length_replicate]
    omega
  | case5 token rest h1 h2 ih =>
    rw [rleExpandedLoop.eq_def, rleDecode.eq_def]
    simp only [if_neg h1, if_neg h2, token_spec h1, ih, length_cons]
    omega

theorem rleDecodeInto_eq (rle : Bytes) (hout : out.length = 128) :
    rleExpandedLen rle = min (rleDecode rle).length 129 ∧
      rleDecodeInto rle out =
        ((rleDecode rle).take 128 ++ out.drop (min (rleDecode rle).length 128),
          min (rleDecode rle).length 129) := by
  constructor
  · rw [rleExpandedLen, rleExpandedLoop_eq, zero_add]
  · rw [rleDecodeInto, rleDecodeLoop_eq rle _ 0 hout (zero_le _), written, length_take]
    simp [min_comm]

/-- **The decoders agree on every byte string**, and undo the encoder: the length is capped at 129,
and the first 128 bytes are written over what was there. -/
theorem rle_codec_agrees :
    (∀ s, rleDecode (rleEncode s) = s) ∧ ∀ (rle : Bytes) (out : List.Vector UInt8 128),
      rleExpandedLen rle = min (rleDecode rle).length 129 ∧
        rleDecodeInto rle out.toList =
          ((rleDecode rle).take 128 ++ out.toList.drop (min (rleDecode rle).length 128),
            min (rleDecode rle).length 129) :=
  ⟨rleDecode_rleEncode, fun rle out => rleDecodeInto_eq rle out.toList_length⟩

/-- **A plane survives the run-length code.** -/
theorem rleDecodeInto_rleEncode {data : Bytes} (hdata : data.length = 128)
    (hout : out.length = 128) :
    rleDecodeInto (rleEncode data) out = (data, 128) := by
  rw [rleDecodeInto, rleDecodeLoop_eq _ _ 0 hout (by omega), rleDecode_rleEncode, written, hdata,
    take_of_length_le hdata.le, hdata]
  simp [hout]

theorem length_rleEncode_le (data : Bytes) : (rleEncode data).length ≤ 2 * data.length := by
  induction data using rleEncode.induct with
  | case1 => simp [rleEncode]
  | case2 rest more ih =>
    rw [rleEncode, if_pos rfl]
    show ((0x80 ||| UInt8.ofNat more) :: rleEncode (rest.drop more)).length ≤ _
    simp only [length_cons, length_drop] at ih ⊢
    omega
  | case3 b rest hb hlt ih =>
    rw [rleEncode, if_neg hb, if_pos hlt]
    simp only [length_cons]
    omega
  | case4 b rest hb hlt ih =>
    rw [rleEncode, if_neg hb, if_neg hlt]
    simp only [length_cons]
    omega

end Ghostframe.Codec
