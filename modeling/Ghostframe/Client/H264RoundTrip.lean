import Ghostframe.Client.Routing
import Ghostframe.Lib.Slots

/-!
# An H.264 access unit survives fragmentation

The fragments of one keyframe reach a fresh client in any order, repeated any
number of times, each under any transmission number and at any time.

* `AccessUnit.Holds`: an assembly of the unit, described by the set of fragments
  that have arrived;
* `h264_round_trip`: exactly one event comes of it, with the unit's own bytes.
-/

namespace Ghostframe.Client

open Protocol ClientCore Dict Finset FrameAssembly List

/-- An access unit, and how it is cut up. -/
structure AccessUnit where
  frameSeq : UInt32
  timestampUs : UInt32
  info : FrameRefInfo
  payload : Bytes
  maxFragmentPayload : ℕ

open AccessUnit

namespace AccessUnit

variable (u : AccessUnit)

/-- The pieces of the unit. -/
def pieces : List Bytes := payloadChunks u.payload u.maxFragmentPayload

/-- The datagrams of the unit. -/
def fragments : List Bytes :=
  fragmentFrameRef u.frameSeq u.timestampUs u.info u.payload u.maxFragmentPayload

/-- The header of fragment `idx`, sent under number `ws`. -/
def header (idx : ℕ) (ws : UInt32) : FrameHeader :=
  stampedHeader u.frameSeq u.timestampUs u.info u.pieces.length idx ws

/-- What the consumer is to see of the unit. -/
def event : Event :=
  .needsH264 u.frameSeq u.timestampUs true u.info.refFrameSeq u.info.flags u.info.slots true
    u.payload

/-- A keyframe the client takes: not padding, within its bounds on fragments and bytes, and with a
frame number that is not taken for something else. -/
structure Deliverable : Prop where
  seq_lt : u.frameSeq.toNat < 2 ^ 31
  not_parity : ¬ LooksLikeParity u.frameSeq
  idr : u.info.flags &&& frameFlagIdr ≠ 0
  not_pad : u.info.flags &&& frameFlagPad = 0
  size_pos : 0 < u.maxFragmentPayload
  count_le : u.pieces.length ≤ maxFrameFragments.toNat
  bytes_le : u.payload.length ≤ maxH264AccessUnitBytes

theorem length_fragments : u.fragments.length = u.pieces.length := by
  simp [fragments, fragmentFrameRef, pieces]

theorem pieces_ne_nil : u.pieces ≠ [] := by
  unfold pieces payloadChunks
  cases u.payload with
  | nil => simp
  | cons b rest => simp [chunks, chunksOf]

variable {u}

theorem flatten_pieces (hu : u.Deliverable) : u.pieces.flatten = u.payload := by
  unfold pieces payloadChunks
  split_ifs with h
  · rw [h]
    rfl
  · exact flatten_chunks hu.size_pos u.payload

theorem isKeyframe_header (hu : u.Deliverable) (idx : ℕ) (ws : UInt32) :
    (u.header idx ws).isKeyframe = true := decide_eq_true hu.idr

/-- The assembly holds the fragments with indices in `S`. -/
structure Holds (u : AccessUnit) (S : Finset ℕ) (a : FrameAssembly) : Prop where
  subset : S ⊆ Finset.range u.pieces.length
  header_eq : ∃ idx ws, a.header = u.header idx ws
  fragments_eq : a.fragments = slots u.pieces S
  received_eq : a.received = S.card
  bytes_eq : a.bytes = heldLength u.pieces S

variable {a : FrameAssembly} {idx : ℕ} {piece : Bytes}

/-- A new assembly holds nothing. -/
theorem holds_start (hu : u.Deliverable) (hidx : idx < u.pieces.length) (ws : UInt32) (nowUs : ℕ) :
    u.Holds ∅ (.start (u.header idx ws) nowUs) where
  subset := Finset.empty_subset _
  header_eq := ⟨idx, ws, rfl⟩
  fragments_eq := by
    have htotal := (stampedHeader_bounds u.frameSeq u.timestampUs u.info ws hidx hu.count_le).2
    rw [slots_empty, ← htotal]
    rfl
  received_eq := rfl
  bytes_eq := rfl

variable {S : Finset ℕ}

theorem Holds.isFree_iff (h : u.Holds S a) (hp : u.pieces[idx]? = some piece) :
    a.isFree idx = true ↔ idx ∉ S := by
  rw [isFree, decide_eq_true_iff, h.fragments_eq, getElem?_slots_eq_none_iff S hp]

/-- Storing a fragment that was missing. -/
theorem Holds.put (h : u.Holds S a) (hp : u.pieces[idx]? = some piece)
    (hidx : idx ∉ S) :
    u.Holds (insert idx S) (a.put idx piece) where
  subset := by
    have hlt : idx < u.pieces.length := (List.getElem?_eq_some_iff.1 hp).1
    exact Finset.insert_subset (Finset.mem_range.2 hlt) h.subset
  header_eq := h.header_eq
  fragments_eq := by
    show a.fragments.set idx (some piece) = _
    rw [h.fragments_eq, slots_insert S hp]
  received_eq := by
    show a.received + 1 = _
    rw [h.received_eq, card_insert_of_notMem hidx]
  bytes_eq := by
    show a.bytes + piece.length = _
    rw [h.bytes_eq, heldLength_insert hp hidx]

/-- The bound on an access unit's bytes is never reached. -/
theorem Holds.bytes_put_le (hu : u.Deliverable) (h : u.Holds S a)
    (hp : u.pieces[idx]? = some piece) (hidx : idx ∉ S) :
    a.bytes + piece.length ≤ maxH264AccessUnitBytes := by
  have hput := h.put hp hidx
  have hle := heldLength_le hput.subset
  rw [heldLength_insert hp hidx, ← h.bytes_eq, flatten_pieces hu] at hle
  exact hle.trans hu.bytes_le

theorem Holds.isComplete_iff (h : u.Holds S a) :
    a.isComplete = true ↔ S = Finset.range u.pieces.length := by
  rw [isComplete, decide_eq_true_iff, h.received_eq, h.fragments_eq, length_slots]
  constructor
  · intro hcard
    exact eq_of_subset_of_card_le h.subset (by rw [card_range, hcard])
  · rintro rfl
    exact card_range _

theorem Holds.needsH264_eq (hu : u.Deliverable) (h : u.Holds (Finset.range u.pieces.length) a) :
    needsH264 a true = u.event := by
  obtain ⟨idx, ws, hheader⟩ := h.header_eq
  have hpayload : a.payload = u.payload := by
    rw [FrameAssembly.payload, h.fragments_eq, filterMap_slots, flatten_pieces hu]
  rw [needsH264, hheader, hpayload, isKeyframe_header hu]
  rfl

end AccessUnit

/-! ### The client while the unit arrives -/

/-- The client holds no assembly but one of the unit, with the fragments in `S`. -/
structure Assembling (u : AccessUnit) (S : Finset ℕ) (c : ClientCore) : Prop where
  latest_le : c.latestFullFrameSeq.toNat ≤ u.frameSeq.toNat
  only : ∀ seq a, c.frameAssemblies.get? seq = some a → seq = u.frameSeq ∧ u.Holds S a
  absent : c.frameAssemblies.get? u.frameSeq = none → S = ∅

namespace Assembling

variable {u : AccessUnit} {S : Finset ℕ} {c : ClientCore}

/-- Only these two fields matter. -/
theorem congr {c' : ClientCore} (h : Assembling u S c)
    (hlatest : c'.latestFullFrameSeq = c.latestFullFrameSeq)
    (hasm : c'.frameAssemblies = c.frameAssemblies) : Assembling u S c' := by
  refine ⟨?_, ?_, ?_⟩
  · rw [hlatest]
    exact h.latest_le
  · rw [hasm]
    exact h.only
  · rw [hasm]
    exact h.absent

theorem windowThreshold_le (h : Assembling u S c) : c.windowThreshold ≤ u.frameSeq.toNat :=
  (Nat.sub_le _ _).trans h.latest_le

theorem get?_evict (h : Assembling u S c) (nowUs : ℕ) {a : FrameAssembly}
    (ha : c.frameAssemblies.get? u.frameSeq = some a) :
    (c.evictStaleFrameAssemblies nowUs).frameAssemblies.get? u.frameSeq = some a := by
  rw [get?_evictStale h.windowThreshold_le, ha]

theorem evict (h : Assembling u S c) (nowUs : ℕ) :
    Assembling u S (c.evictStaleFrameAssemblies nowUs) := by
  refine ⟨h.latest_le, ?_, ?_⟩
  · intro seq a ha
    exact h.only seq a ((get?_retain_eq_some _ _ _ _).1 ha).1
  · intro hnone
    apply h.absent
    cases hget : c.frameAssemblies.get? u.frameSeq with
    | none => rfl
    | some a =>
      rw [h.get?_evict nowUs hget] at hnone
      cases hnone

theorem noteFrame (h : Assembling u S c) (nowUs : ℕ) :
    Assembling u S (c.noteFrame u.frameSeq nowUs) := by
  apply evict
  refine ⟨?_, h.only, h.absent⟩
  show (if c.latestFullFrameSeq < u.frameSeq then u.frameSeq
    else c.latestFullFrameSeq).toNat ≤ u.frameSeq.toNat
  split_ifs
  · exact le_rfl
  · exact h.latest_le

/-- After the assembly has been opened it is there. -/
theorem openAssembly (hu : u.Deliverable) (h : Assembling u S c) {idx : ℕ}
    (hidx : idx < u.pieces.length) (ws : UInt32) (nowUs : ℕ) :
    ∃ a, (c.openAssembly (u.header idx ws) nowUs).frameAssemblies.get? u.frameSeq = some a ∧
      Assembling u S (c.openAssembly (u.header idx ws) nowUs) := by
  have hseq : (u.header idx ws).frameSeq = u.frameSeq := rfl
  have hopen : ∃ c1 : ClientCore, Assembling u S c1 ∧
      (∃ a, c1.frameAssemblies.get? u.frameSeq = some a) ∧
      c.openAssembly (u.header idx ws) nowUs = c1.evictStaleFrameAssemblies nowUs := by
    unfold ClientCore.openAssembly
    rw [isKeyframe_header hu, hseq]
    cases hget : c.frameAssemblies.get? u.frameSeq with
    | some a =>
      refine ⟨c, h, ⟨a, hget⟩, ?_⟩
      rw [if_pos ((contains_eq_true_iff _ _).2 ⟨a, hget⟩)]
      rfl
    | none =>
      have hS : S = ∅ := h.absent hget
      subst hS
      have hnot : ¬ c.frameAssemblies.contains u.frameSeq = true := by
        rw [contains_eq_true_iff, hget]
        simp
      rw [if_neg hnot]
      refine ⟨{ c with
        frameAssemblies :=
          c.frameAssemblies.insert u.frameSeq (.start (u.header idx ws) nowUs) },
        ⟨h.latest_le, ?_, fun _ => rfl⟩, ⟨_, get?_insert_self _ _ _⟩, rfl⟩
      intro seq a ha
      rw [get?_insert] at ha
      split_ifs at ha with hs
      · cases ha
        exact ⟨hs, holds_start hu hidx ws nowUs⟩
      · exact absurd (h.only seq a ha).1 hs
  obtain ⟨c1, h1, ⟨a, ha⟩, heq⟩ := hopen
  rw [heq]
  exact ⟨a, h1.get?_evict nowUs ha, h1.evict nowUs⟩

/-- The unit's assembly has grown. -/
theorem insert {S' : Finset ℕ} (h : Assembling u S c) {a : FrameAssembly} (ha : u.Holds S' a) :
    Assembling u S' { c with frameAssemblies := c.frameAssemblies.insert u.frameSeq a } := by
  refine ⟨h.latest_le, ?_, ?_⟩
  · intro seq b hb
    rw [get?_insert] at hb
    split_ifs at hb with hs
    · cases hb
      exact ⟨hs, ha⟩
    · exact absurd (h.only seq b hb).1 hs
  · intro hnone
    rw [get?_insert_self] at hnone
    cases hnone

theorem erase (h : Assembling u S c) :
    Assembling u ∅ { c with frameAssemblies := c.frameAssemblies.erase u.frameSeq } := by
  refine ⟨h.latest_le, ?_, fun _ => rfl⟩
  intro seq a ha
  obtain ⟨hne, hget⟩ := get?_of_get?_erase ha
  exact absurd (h.only seq a hget).1 hne

end Assembling

/-! ### One fragment -/

/-- What becomes of one more fragment: the assembly grows, or it is complete and goes to the
gate. -/
inductive Taken (u : AccessUnit) (S : Finset ℕ) (gate : H264Gate) (nowUs : ℕ) :
    ClientCore × List Event → Prop
  | grown (c : ClientCore) (hne : S ≠ Finset.range u.pieces.length) (hgate : c.h264Gate = gate)
      (h : Assembling u S c) : Taken u S gate nowUs (c, [])
  | complete (c : ClientCore) (a : FrameAssembly) (heq : S = Finset.range u.pieces.length)
      (ha : u.Holds S a) (hgate : c.h264Gate = gate) (h : Assembling u ∅ c) :
      Taken u S gate nowUs (c.judgeFrame u.frameSeq a nowUs)

variable {u : AccessUnit} {S : Finset ℕ} {c : ClientCore} {a : FrameAssembly}

theorem finishFrameIfComplete_unit (h : Assembling u S c)
    (hget : c.frameAssemblies.get? u.frameSeq = some a) (nowUs : ℕ) :
    Taken u S c.h264Gate nowUs (c.finishFrameIfComplete u.frameSeq nowUs) := by
  have hholds := (h.only _ a hget).2
  rw [finishFrameIfComplete, hget]
  simp only
  by_cases hfull : a.isComplete = true
  · rw [if_pos hfull]
    exact .complete _ a (hholds.isComplete_iff.1 hfull) hholds rfl h.erase
  · rw [if_neg hfull]
    exact .grown c (fun heq => hfull (hholds.isComplete_iff.2 heq)) rfl h

/-- A fragment is stored unless it has arrived before. -/
theorem storeFragment_unit (hu : u.Deliverable) (h : Assembling u S c)
    (hget : c.frameAssemblies.get? u.frameSeq = some a) {idx : ℕ} {piece : Bytes}
    (hp : u.pieces[idx]? = some piece) (ws : UInt32) (nowUs : ℕ) :
    Taken u (insert idx S) c.h264Gate nowUs (c.storeFragment (u.header idx ws) piece nowUs) := by
  have hlt : idx < u.pieces.length := (List.getElem?_eq_some_iff.1 hp).1
  have hidx : (u.header idx ws).fragIdx.toNat = idx :=
    (stampedHeader_bounds u.frameSeq u.timestampUs u.info ws hlt hu.count_le).1
  have hseq : (u.header idx ws).frameSeq = u.frameSeq := rfl
  have hholds := (h.only _ a hget).2
  rw [storeFragment, hidx, hseq, hget]
  simp only
  by_cases hmem : idx ∈ S
  · rw [if_neg fun hfree => (hholds.isFree_iff hp).1 hfree hmem, insert_eq_of_mem hmem]
    exact finishFrameIfComplete_unit h hget nowUs
  · have hbytes := hholds.bytes_put_le hu hp hmem
    rw [if_pos ((hholds.isFree_iff hp).2 hmem), if_neg (Nat.not_lt.2 hbytes)]
    exact finishFrameIfComplete_unit (h.insert (hholds.put hp hmem)) (get?_insert_self _ _ _)
      nowUs

/-- **A fragment of the unit adds to the assembly, or completes it.** -/
theorem takeFragment_unit (hu : u.Deliverable) (h : Assembling u S c) {idx : ℕ} {piece : Bytes}
    (hp : u.pieces[idx]? = some piece) (ws : UInt32) (nowUs : ℕ) :
    Taken u (insert idx S) c.h264Gate nowUs (c.takeFragment (u.header idx ws) piece nowUs) := by
  have hlt : idx < u.pieces.length := (List.getElem?_eq_some_iff.1 hp).1
  have htotal : (u.header idx ws).fragTotal.toNat = u.pieces.length :=
    (stampedHeader_bounds u.frameSeq u.timestampUs u.info ws hlt hu.count_le).2
  have hpad : ¬ (u.header idx ws).flags &&& frameFlagPad ≠ 0 := not_not.2 hu.not_pad
  have hmoot : ¬ c.isMoot (u.header idx ws) nowUs = true := by
    have hwin : ¬ (u.header idx ws).frameSeq.toNat < c.windowThreshold :=
      Nat.not_lt.2 h.windowThreshold_le
    rw [isMoot, isKeyframe_header hu]
    simp [hwin]
  have hzero : ¬ (u.header idx ws).fragTotal = 0 := by
    intro h0
    rw [h0] at htotal
    have : (0 : UInt16).toNat = 0 := rfl
    omega
  have hmax : ¬ maxFrameFragments < (u.header idx ws).fragTotal := by
    rw [UInt16.lt_iff_toNat_lt, htotal]
    exact Nat.not_lt.2 hu.count_le
  rw [takeFragment, if_neg hpad, if_neg hmoot]
  rw [if_neg hzero, if_neg hmax]
  obtain ⟨a, hget, hopen⟩ := (h.noteFrame nowUs).openAssembly hu hlt ws nowUs
  have hgate : ((c.noteFrame u.frameSeq nowUs).openAssembly (u.header idx ws) nowUs).h264Gate =
      c.h264Gate := by
    unfold openAssembly
    split_ifs <;> rfl
  rw [← hgate]
  exact storeFragment_unit hu hopen hget hp ws nowUs

/-! ### The gate -/

/-- Sending the gate's request touches neither the assemblies nor what was fed last. -/
theorem afterGate_spec (c : ClientCore) :
    c.afterGate.latestFullFrameSeq = c.latestFullFrameSeq ∧
      c.afterGate.frameAssemblies = c.frameAssemblies ∧
      c.afterGate.h264Gate.lastFed = c.h264Gate.lastFed := by
  unfold afterGate
  cases c.h264Gate.request with
  | none | some => exact ⟨rfl, rfl, rfl⟩

/-- What an answer leaves of the client, whichever the verdict is. -/
theorem answer_spec (c : ClientCore) (frameSeq : UInt32) (a : FrameAssembly) (nowUs : ℕ)
    (verdict : Verdict) :
    (c.answer frameSeq a nowUs verdict).1.latestFullFrameSeq = c.latestFullFrameSeq ∧
      (c.answer frameSeq a nowUs verdict).1.frameAssemblies = c.frameAssemblies ∧
      (c.answer frameSeq a nowUs verdict).1.h264Gate.lastFed = c.h264Gate.lastFed := by
  cases verdict with
  | refuse cause =>
    simp only [answer, refuseFrame]
    split_ifs
    · exact afterGate_spec c
    · exact afterGate_spec { c with frameAcks := c.frameAcks.record frameSeq false nowUs }
  | feed resetDecoder =>
    cases resetDecoder with
    | false => exact afterGate_spec c
    | true =>
      exact afterGate_spec
        { c with
          decoderEpochStart := if c.decoderBroken then some frameSeq else c.decoderEpochStart
          decoderBroken := false }

theorem judgeFrame_spec (h : Assembling u S c) (a : FrameAssembly) (nowUs : ℕ) :
    Assembling u S (c.judgeFrame u.frameSeq a nowUs).1 ∧
      (c.judgeFrame u.frameSeq a nowUs).1.h264Gate.lastFed =
        (c.h264Gate.onFrame a.header nowUs).1.lastFed := by
  obtain ⟨h1, h2, h3⟩ := answer_spec
    { c with h264Gate := (c.h264Gate.onFrame a.header nowUs).1 } u.frameSeq a nowUs
    (c.h264Gate.onFrame a.header nowUs).2
  exact ⟨h.congr h1 h2, h3⟩

/-- The first complete assembly of the unit is fed. -/
theorem judgeFrame_first (hu : u.Deliverable) (ha : u.Holds (Finset.range u.pieces.length) a)
    (hfed : c.h264Gate.lastFed = none) (nowUs : ℕ) :
    (c.judgeFrame u.frameSeq a nowUs).2 = [u.event] ∧
      (c.h264Gate.onFrame a.header nowUs).1.lastFed = some u.frameSeq := by
  obtain ⟨idx, ws, hheader⟩ := ha.header_eq
  have hkey : a.header.isKeyframe = true := by
    rw [hheader, isKeyframe_header hu]
  obtain ⟨hverdict, hlast⟩ := H264Gate.onFrame_firstIdr hfed hkey nowUs
  constructor
  · rw [judgeFrame, hverdict, answer, ha.needsH264_eq hu]
  · rw [hlast, hheader]
    rfl

/-- Once the unit has been fed, its assembly is refused without an event. -/
theorem judgeFrame_again (ha : u.Holds S a) (hfed : c.h264Gate.lastFed = some u.frameSeq)
    (nowUs : ℕ) :
    (c.judgeFrame u.frameSeq a nowUs).2 = [] ∧
      (c.h264Gate.onFrame a.header nowUs).1.lastFed = some u.frameSeq := by
  obtain ⟨idx, ws, hheader⟩ := ha.header_eq
  have hseq : a.header.frameSeq = u.frameSeq := by
    rw [hheader]
    rfl
  rw [← hseq] at hfed
  obtain ⟨hverdict, hlast⟩ := H264Gate.onFrame_again hfed nowUs
  constructor
  · rw [judgeFrame, hverdict, answer]
  · rw [hlast, hseq]

/-! ### One datagram -/

/-- One arrival of a fragment: which, under which transmission number, and when. -/
structure Arrival where
  idx : ℕ
  wireSeq : UInt32
  nowUs : ℕ

/-- The datagram that arrives. -/
def Arrival.datagram (u : AccessUnit) (x : Arrival) : Bytes :=
  stampWireSeq (u.fragments.getD x.idx []) x.wireSeq

/-- Everything a fragment does before it is taken leaves the assemblies and the gate alone. -/
theorem handleDatagramPayloads_unit (hu : u.Deliverable) (h : Assembling u S c) (x : Arrival)
    (hx : x.idx < u.pieces.length) :
    Taken u (insert x.idx S) c.h264Gate x.nowUs
      (c.handleDatagramPayloads (x.datagram u) x.nowUs) := by
  have hfrag : u.fragments[x.idx]? = some (u.fragments.getD x.idx []) := by
    rw [getD_eq_getElem?_getD, getElem?_eq_getElem (by rw [u.length_fragments]; exact hx)]
    rfl
  obtain ⟨piece, hpiece, hstamp⟩ := stampWireSeq_fragment x.wireSeq hfrag
  have hdatagram : c.handleDatagramPayloads (x.datagram u) x.nowUs =
      (if x.wireSeq = noAck then c.countFrame
        else c.countFrame.ackTransmission x.wireSeq x.nowUs).takeFragment
          (u.header x.idx x.wireSeq) piece x.nowUs := by
    rw [Arrival.datagram, hstamp]
    exact handleDatagramPayloads_fragment c x.wireSeq piece x.nowUs hu.seq_lt hu.not_parity hx
      hu.count_le
  rw [hdatagram]
  split_ifs
  · exact takeFragment_unit hu (c := c.countFrame) (h.congr rfl rfl) hpiece x.wireSeq x.nowUs
  · exact takeFragment_unit hu (c := c.countFrame.ackTransmission x.wireSeq x.nowUs)
      (h.congr rfl rfl) hpiece x.wireSeq x.nowUs

/-- The pixel decoder lets an H.264 event through and keeps to its own state. -/
theorem decodeEvents_spec (u : AccessUnit) (c : ClientCore) {events : List Event}
    (hevents : events = [] ∨ events = [u.event]) :
    (c.decodeEvents events).2 = events ∧
      (c.decodeEvents events).1.latestFullFrameSeq = c.latestFullFrameSeq ∧
      (c.decodeEvents events).1.frameAssemblies = c.frameAssemblies ∧
      (c.decodeEvents events).1.h264Gate = c.h264Gate := by
  unfold decodeEvents
  cases c.decoder with
  | none => exact ⟨rfl, rfl, rfl, rfl⟩
  | some decoder =>
    refine ⟨?_, rfl, rfl, rfl⟩
    rcases hevents with rfl | rfl
    · rfl
    · rfl

/-- Before the unit has been fed: one more fragment, and the event when it was the last one. -/
theorem handleDatagram_collecting (hu : u.Deliverable) (h : Assembling u S c)
    (hfed : c.h264Gate.lastFed = none) (x : Arrival) (hx : x.idx < u.pieces.length) :
    let r := c.handleDatagram (x.datagram u) x.nowUs
    (insert x.idx S ≠ Finset.range u.pieces.length ∧ r.2 = [] ∧
        Assembling u (insert x.idx S) r.1 ∧ r.1.h264Gate.lastFed = none) ∨
      (insert x.idx S = Finset.range u.pieces.length ∧ r.2 = [u.event] ∧
        Assembling u ∅ r.1 ∧ r.1.h264Gate.lastFed = some u.frameSeq) := by
  have htaken := handleDatagramPayloads_unit hu h x hx
  dsimp only
  rw [handleDatagram]
  generalize c.handleDatagramPayloads (x.datagram u) x.nowUs = r at htaken
  cases htaken with
  | grown c' hne hgate h' =>
    obtain ⟨he, h1, h2, h3⟩ := decodeEvents_spec u c' (Or.inl rfl)
    exact Or.inl ⟨hne, he, h'.congr h1 h2, by rw [h3, hgate, hfed]⟩
  | complete c' a heq ha hgate h' =>
    rw [heq] at ha
    rw [← hgate] at hfed
    obtain ⟨hevent, hlast⟩ := judgeFrame_first hu ha hfed x.nowUs
    obtain ⟨hj, hjfed⟩ := judgeFrame_spec h' a x.nowUs
    obtain ⟨he, h1, h2, h3⟩ := decodeEvents_spec u (c'.judgeFrame u.frameSeq a x.nowUs).1
      (Or.inr hevent)
    exact Or.inr ⟨heq, he.trans hevent, hj.congr h1 h2, by rw [h3, hjfed, hlast]⟩

/-- After the unit has been fed: no fragment of it brings an event again. -/
theorem handleDatagram_delivered (hu : u.Deliverable) (h : Assembling u S c)
    (hfed : c.h264Gate.lastFed = some u.frameSeq) (x : Arrival) (hx : x.idx < u.pieces.length) :
    let r := c.handleDatagram (x.datagram u) x.nowUs
    r.2 = [] ∧ r.1.h264Gate.lastFed = some u.frameSeq ∧ ∃ S', Assembling u S' r.1 := by
  have htaken := handleDatagramPayloads_unit hu h x hx
  dsimp only
  rw [handleDatagram]
  generalize c.handleDatagramPayloads (x.datagram u) x.nowUs = r at htaken
  cases htaken with
  | grown c' hne hgate h' =>
    obtain ⟨he, h1, h2, h3⟩ := decodeEvents_spec u c' (Or.inl rfl)
    exact ⟨he, by rw [h3, hgate, hfed], _, h'.congr h1 h2⟩
  | complete c' a heq ha hgate h' =>
    rw [← hgate] at hfed
    obtain ⟨hevent, hlast⟩ := judgeFrame_again ha hfed x.nowUs
    obtain ⟨hj, hjfed⟩ := judgeFrame_spec h' a x.nowUs
    obtain ⟨he, h1, h2, h3⟩ := decodeEvents_spec u (c'.judgeFrame u.frameSeq a x.nowUs).1
      (Or.inl hevent)
    exact ⟨he.trans hevent, by rw [h3, hjfed, hlast], ∅, hj.congr h1 h2⟩

/-! ### Whole runs -/

/-- The datagrams of a list of arrivals, with their times. -/
def AccessUnit.traffic (u : AccessUnit) (arrivals : List Arrival) : List (Bytes × ℕ) :=
  arrivals.map fun x => (x.datagram u, x.nowUs)

/-- Once the unit has been fed, copies of its fragments bring nothing. -/
theorem receive_delivered (hu : u.Deliverable) (arrivals : List Arrival)
    (hidx : ∀ x ∈ arrivals, x.idx < u.pieces.length) (h : Assembling u S c)
    (hfed : c.h264Gate.lastFed = some u.frameSeq) : (c.receive (u.traffic arrivals)).2 = [] := by
  induction arrivals generalizing c S with
  | nil => rfl
  | cons x arrivals ih =>
    obtain ⟨he, hfed', S', h'⟩ := handleDatagram_delivered hu h hfed x (hidx x mem_cons_self)
    have hrest := ih (fun y hy => hidx y (mem_cons_of_mem x hy)) h' hfed'
    show (c.handleDatagram (x.datagram u) x.nowUs).2 ++
      ((c.handleDatagram (x.datagram u) x.nowUs).1.receive (u.traffic arrivals)).2 = []
    rw [he, hrest]
    rfl

/-- Until then, the arrivals that complete the set bring the event, once. -/
theorem receive_collecting (hu : u.Deliverable) (arrivals : List Arrival)
    (hidx : ∀ x ∈ arrivals, x.idx < u.pieces.length)
    (hall : ∀ i < u.pieces.length, i ∈ S ∨ ∃ x ∈ arrivals, x.idx = i)
    (hS : S ≠ Finset.range u.pieces.length) (h : Assembling u S c)
    (hsub : S ⊆ Finset.range u.pieces.length) (hfed : c.h264Gate.lastFed = none) :
    (c.receive (u.traffic arrivals)).2 = [u.event] := by
  induction arrivals generalizing c S with
  | nil =>
    -- nothing more arrives, so everything had arrived before
    refine absurd (Finset.Subset.antisymm hsub ?_) hS
    intro i hi
    rcases hall i (Finset.mem_range.1 hi) with hmem | ⟨x, hx, -⟩
    · exact hmem
    · cases hx
  | cons x arrivals ih =>
    have hx := hidx x mem_cons_self
    have hrest : ∀ y ∈ arrivals, y.idx < u.pieces.length :=
      fun y hy => hidx y (mem_cons_of_mem x hy)
    show (c.handleDatagram (x.datagram u) x.nowUs).2 ++
      ((c.handleDatagram (x.datagram u) x.nowUs).1.receive (u.traffic arrivals)).2 = [u.event]
    rcases handleDatagram_collecting hu h hfed x hx with
      ⟨hne, he, h', hfed'⟩ | ⟨-, he, h', hfed'⟩
    · have hall' : ∀ i < u.pieces.length, i ∈ insert x.idx S ∨ ∃ y ∈ arrivals, y.idx = i := by
        intro i hi
        rcases hall i hi with hmem | ⟨y, hy, rfl⟩
        · exact Or.inl (mem_insert_of_mem hmem)
        · rcases mem_cons.1 hy with rfl | hy
          · exact Or.inl (mem_insert_self _ _)
          · exact Or.inr ⟨y, hy, rfl⟩
      have hsub' := insert_subset (mem_range.2 hx) hsub
      rw [he, ih hrest hall' hne h' hsub' hfed']
      rfl
    · rw [he, receive_delivered hu arrivals hrest h' hfed']
      rfl

theorem assembling_new (u : AccessUnit) (config : ClientConfig) :
    Assembling u ∅ (new config) := by
  refine ⟨Nat.zero_le _, ?_, fun _ => rfl⟩
  intro seq a ha
  have hnone : (new config).frameAssemblies.get? seq = none := get?_empty seq
  cases ha

/-- **A keyframe the client takes is delivered exactly once**, with its own bytes and description,
whatever the order, the repetitions, the transmission numbers and the times of its fragments. -/
theorem h264_round_trip (config : ClientConfig) (u : AccessUnit) (hu : u.Deliverable)
    (arrivals : List Arrival) (hidx : ∀ x ∈ arrivals, x.idx < u.fragments.length)
    (hall : ∀ i < u.fragments.length, ∃ x ∈ arrivals, x.idx = i) :
    ((ClientCore.new config).receive (u.traffic arrivals)).2 =
      [.needsH264 u.frameSeq u.timestampUs true u.info.refFrameSeq u.info.flags u.info.slots true
        u.payload] := by
  rw [u.length_fragments] at hidx hall
  have hpos : 0 < u.pieces.length := length_pos_iff.2 u.pieces_ne_nil
  have hne : (∅ : Finset ℕ) ≠ Finset.range u.pieces.length := by
    intro heq
    have hmem : 0 ∈ (∅ : Finset ℕ) := heq ▸ Finset.mem_range.2 hpos
    simp at hmem
  exact receive_collecting hu arrivals hidx (fun i hi => Or.inr (hall i hi)) hne
    (assembling_new u config) (empty_subset _) rfl

/-- A keyframe of three bytes in two fragments, the second one first and both repeated. -/
theorem h264_round_trip_reordered :
    ((ClientCore.new {}).receive
      (AccessUnit.traffic ⟨9, 5, .idr, [1, 2, 3], 2⟩
        [⟨1, 4, 100⟩, ⟨1, 6, 90⟩, ⟨0, noAck, 50⟩, ⟨0, 7, 60⟩, ⟨1, 8, 70⟩])).2 =
      [.needsH264 9 5 true refFrameNone frameFlagIdr 0 true [1, 2, 3]] :=
  h264_round_trip {} ⟨9, 5, .idr, [1, 2, 3], 2⟩
    ⟨by decide, by decide, by decide, by decide, by decide, by decide, by decide⟩
    [⟨1, 4, 100⟩, ⟨1, 6, 90⟩, ⟨0, noAck, 50⟩, ⟨0, 7, 60⟩, ⟨1, 8, 70⟩] (by decide) (by decide)

/-- **A keyframe marked as padding brings no event**: its fragments are acknowledged and dropped. -/
theorem h264_padding_not_delivered :
    let u : AccessUnit := ⟨9, 5, ⟨frameFlagIdr ||| frameFlagPad, 0, refFrameNone⟩, [1, 2, 3], 2⟩
    u.fragments.length ≤ maxFrameFragments.toNat ∧
      ((ClientCore.new {}).receive (u.traffic [⟨0, 4, 0⟩, ⟨1, 5, 0⟩])).2 = [] := by
  decide +kernel

end Ghostframe.Client
