import Ghostframe.Transport.LedgerRun
import Ghostframe.Transport.NoOrphan
import Ghostframe.Transport.ParityTruth

/-!
# Each loss is repaired at most once

Verdicts, probes, deferred deadlines and NACKs ask for repairs of the same passes and
fragments, through queues that a budget drains. A run keeps next to the emitter and
the ledger the datagrams that went on the wire and, for each of them that the loss path
sent, the transmission its content was judged lost by.

* `RepairOp`, `RepairRun.step`: everything that happens to the emitter and the ledger;
* `Repaired`: the numbers handed out are consecutive, every cached entry has one of them
  as its newest, and none that a resend was judged by is anyone's newest any more;
* `repaired_at_most_once`: for every run with fewer than `2 ^ 32 - 1` datagrams.
-/

namespace Ghostframe.Transport

open Protocol Dict H264Cache List Option ReliablePath ReliableTileEmitter UInt32

/-! ### The rest of what happens to the emitter -/

/-- Frames the probe cache keeps (`H264_CACHE_FRAMES`). -/
def h264CacheFrames : ℕ := 64

/-- How long padding waits for its acknowledgement (`PAD_ENTRY_TTL`). -/
def padEntryTtl : Duration := fromSecs 2

/-- `retire_older_than`: the entries first sent too long ago. -/
def RetransmitCache.retireOlderThan (c : RetransmitCache) (now : Instant) (olderThan : Duration) :
    RetransmitCache :=
  let stale := c.entries.toList.filter fun e => now - e.2.firstSentAt > olderThan
  (stale.map Prod.fst).foldl remove c

/-- `trim_to`: the newest `maxFrames` frames stay. -/
def H264Cache.trimTo (c : H264Cache) (maxFrames : ℕ) : H264Cache :=
  if c.frames.size ≤ maxFrames then c
  else if maxFrames = 0 then {}
  else
    match (c.frames.keys.mergeSort (· ≥ ·))[maxFrames - 1]? with
    | some cut => c.dropBefore cut
    | none => c

/-- The loop of `expire`, over the padding in flight, oldest first. -/
def PadRing.expireFrom (now : Instant) : List WireSeq → PadRing → PadRing
  | [], p => { p with order := [] }
  | ws :: rest, p =>
    match p.entries.get? ws with
    | none => expireFrom now rest p
    | some e =>
      if now - e.queuedAt > padEntryTtl then expireFrom now rest (p.remove ws)
      else { p with order := ws :: rest }

namespace ReliableTileEmitter

variable (e : ReliableTileEmitter)

/-- `retire_stuck`. -/
def retireStuck (now : Instant) (olderThan : Duration) :
    ReliableTileEmitter :=
  { e with cache := e.cache.retireOlderThan now olderThan }

/-- `trim_h264_cache`. -/
def trimH264Cache : ReliableTileEmitter :=
  { e with h264 := e.h264.trimTo h264CacheFrames }

/-- `drop_h264_from`. -/
def dropH264From (frameSeq : UInt32) : ReliableTileEmitter :=
  { e with h264 := e.h264.dropFrom frameSeq }

/-- `drop_h264_frame`. -/
def dropH264Frame (frameSeq : UInt32) : ReliableTileEmitter :=
  { e with h264 := e.h264.dropFrame frameSeq }

/-- `purge_queued_h264`, for one frame. -/
def purgeQueuedH264 (frameSeq : UInt32) : ReliableTileEmitter :=
  { e with queue := e.queue.purgeFrames (· == frameSeq) }

/-- `expire_h264_pad`. -/
def expireH264Pad (now : Instant) : ReliableTileEmitter :=
  { e with pads := PadRing.expireFrom now e.pads.order e.pads }

/-- `clear_cache`: the connection is gone, and with it what was measured on it. NACKs that still
wait are dropped when they come up and their pass is not cached. -/
def clearCache : ReliableTileEmitter :=
  { e with
    cache := {}
    h264 := {}
    pads := {}
    pendingLoss := []
    pendingLossSet := ∅
    deferred := []
    rtt := {}
    lastAckAt := none
    latestDepartureAt := none
    lastPtoFireAt := none }

/-- The transmission a waiting content was judged lost by. -/
def judged (content : Content) : Option WireSeq :=
  (e.pendingLoss.find? fun r => r.1 = content).map fun r => r.2.2

end ReliableTileEmitter

/-! ### Runs -/

/-- One event at the emitter and the ledger. -/
inductive RepairOp
  | submitTile (key : EmitKey) (inputs : TileFragmentInputs) (payload : Bytes) (queuedAt : Instant)
      (probe : Option ProbeTag) (now : Instant) (schedulerRetry : Bool)
  | submitFragment (frameSeq : UInt32) (fragIdx : UInt16) (isIdr : Bool) (header : FrameHeader)
      (payload : Bytes) (queuedAt : Instant) (probe : Option ProbeTag) (now : Instant)
  | submitPad (header : FrameHeader) (payload : Bytes) (probe : ProbeTag) (now : Instant)
  | onNack (entries : List EmitKey)
  | detect (now : Instant)
  | probe (now : Instant)
  | tickNacks (now : Instant) (maxRetransmits maxBytes count : ℕ)
  | tickLoss (now : Instant) (maxRetransmits maxBytes count : ℕ)
  | recordTransmissions (now : Instant)
  | stampDeparture (ws : WireSeq) (at_ : Instant)
  | dispatchAck (wireSeqs : List WireSeq) (now : Instant)
  | onSample (rtt : Duration)
  | cancelForTile (tile : UInt8 × UInt8)
  | retireStuck (now : Instant) (olderThan : Duration)
  | supersedeH264Before (frameSeq : UInt32)
  | dropH264From (frameSeq : UInt32)
  | dropH264Frame (frameSeq : UInt32)
  | purgeQueuedH264 (frameSeq : UInt32)
  | trimH264Cache
  | expireH264Pad (now : Instant)
  | offerNext (now : Instant) (accepted : Bool)
  | setTileFec (on : Bool)
  | ledger (op : LedgerOp)
  | clearCache

/-- The emitter and the ledger after one event. -/
def RepairOp.apply (cfg : EmitterConfig) (p : ReliablePath) : RepairOp → ReliablePath
  | .submitTile key inputs payload queuedAt tag now schedulerRetry =>
    { p with
      emitter := p.emitter.submitOneAs key (encodeTileDatagram inputs payload) queuedAt tag now
        schedulerRetry }
  | .submitFragment frameSeq fragIdx isIdr header payload queuedAt tag now =>
    { p with
      emitter := p.emitter.submitH264Fragment
        ⟨frameSeq, fragIdx, isIdr, header.encode ++ payload, queuedAt, tag⟩ now }
  | .submitPad header payload tag now =>
    { p with emitter := p.emitter.submitH264Pad (header.encode ++ payload) tag now }
  | .onNack entries => { p with emitter := p.emitter.onNack entries }
  | .detect now => (p.detect cfg now).1
  | .probe now => (p.probe cfg now).1
  | .tickNacks now maxRetransmits maxBytes count =>
    { p with emitter := (p.emitter.tickNacksBudgeted now maxRetransmits maxBytes count).1 }
  | .tickLoss now maxRetransmits maxBytes count =>
    { p with emitter := (p.emitter.tickLossBudgeted now maxRetransmits maxBytes count).1 }
  | .recordTransmissions now => p.recordTransmissions now
  | .stampDeparture ws at_ => p.stampDeparture ws at_
  | .dispatchAck wireSeqs now => p.dispatchAck wireSeqs now
  | .onSample rtt => p.sampleRtt rtt
  | .cancelForTile tile => { p with emitter := p.emitter.cancelForTile tile }
  | .retireStuck now olderThan => { p with emitter := p.emitter.retireStuck now olderThan }
  | .supersedeH264Before frameSeq => { p with emitter := p.emitter.supersedeH264Before frameSeq }
  | .dropH264From frameSeq => { p with emitter := p.emitter.dropH264From frameSeq }
  | .dropH264Frame frameSeq => { p with emitter := p.emitter.dropH264Frame frameSeq }
  | .purgeQueuedH264 frameSeq => { p with emitter := p.emitter.purgeQueuedH264 frameSeq }
  | .trimH264Cache => { p with emitter := p.emitter.trimH264Cache }
  | .expireH264Pad now => { p with emitter := p.emitter.expireH264Pad now }
  | .offerNext now accepted => { p with emitter := p.emitter.offerNext now accepted }
  | .setTileFec on => { p with emitter := p.emitter.setTileFec on }
  | .ledger op => { p with ledger := (op.apply p.ledger).1 }
  | .clearCache => { p with emitter := p.emitter.clearCache }

/-- The verdicts that the datagrams of a turn of the loss path answer, one for each datagram. -/
def RepairOp.repairs (e e' : ReliableTileEmitter) : RepairOp → List (Option WireSeq)
  | .tickLoss .. => (sentBetween e e').map fun t => e.judged t.emitted.content
  | _ => []

/-- The emitter and the ledger, with the datagrams put on the wire so far and the verdicts that
those of the loss path answered. -/
structure RepairRun where
  path : ReliablePath
  sent : List Sent
  repairs : List (Option WireSeq)

namespace RepairRun

/-- Nothing sent yet. -/
def start (now : Instant) (capacity : ℕ) : RepairRun := ⟨.new now capacity, [], []⟩

/-- The state after one event. -/
def step (cfg : EmitterConfig) (s : RepairRun) (op : RepairOp) : RepairRun where
  path := op.apply cfg s.path
  sent := s.sent ++ sentBetween s.path.emitter (op.apply cfg s.path).emitter
  repairs := s.repairs ++ op.repairs s.path.emitter (op.apply cfg s.path).emitter

end RepairRun

/-! ### Cached entries that come and go -/

open ReliableTileEmitter

section Caches

variable {c : H264Cache} {f f' : UInt32} {i i' : UInt16} {y : CacheEntry}

/-- Writing a fragment leaves the others as they are. -/
theorem H264Cache.get_set {x : CacheEntry} (h : (c.set f i x).get f' i' = some y) :
    (f' = f ∧ i' = i ∧ y = x) ∨ (¬ (f' = f ∧ i' = i) ∧ c.get f' i' = some y) := by
  unfold get set at h
  simp only [get?_modify] at h
  by_cases hf : f' = f
  · subst hf
    rw [if_pos rfl] at h
    obtain ⟨frame, hframe, hfrag⟩ := bind_eq_some_iff.1 h
    obtain ⟨old, hold, rfl⟩ := map_eq_some_iff.1 hframe
    rw [get?_insert] at hfrag
    split_ifs at hfrag with hi
    · exact .inl ⟨rfl, hi, (some.inj hfrag).symm⟩
    · refine .inr ⟨fun hb => hi hb.2, ?_⟩
      unfold get
      rw [hold]
      exact hfrag
  · rw [if_neg hf] at h
    exact .inr ⟨fun hb => hf hb.1, h⟩

theorem H264Cache.get_insert {isIdr : Bool} {x : CacheEntry}
    (h : (c.insert f i isIdr x).get f' i' = some y) :
    (f' = f ∧ i' = i ∧ y = x) ∨ (¬ (f' = f ∧ i' = i) ∧ c.get f' i' = some y) := by
  unfold get insert at h
  simp only [get?_insert] at h
  by_cases hf : f' = f
  · subst hf
    rw [if_pos rfl, bind_some, get?_insert] at h
    split_ifs at h with hi
    · exact .inl ⟨rfl, hi, (some.inj h).symm⟩
    · refine .inr ⟨fun hb => hi hb.2, ?_⟩
      unfold get
      cases hframe : c.frames.get? f' with
      | none => simp [hframe] at h
      | some frame => simpa [hframe] using h
  · rw [if_neg hf] at h
    exact .inr ⟨fun hb => hf hb.1, h⟩

theorem H264Cache.get_remove (h : (c.remove f i).get f' i' = some y) : c.get f' i' = some y := by
  unfold remove at h
  cases hframe : c.frames.get? f with
  | none => simpa [hframe] using h
  | some frame =>
    cases hfrag : frame.frags.get? i with
    | none => simpa [hframe, hfrag] using h
    | some e =>
      simp only [hframe, hfrag, get] at h
      unfold get
      by_cases hf : f' = f
      · subst hf
        split_ifs at h
        · rw [get?_erase_self] at h
          cases h
        · rw [get?_insert_self, bind_some] at h
          rw [hframe]
          exact (get?_of_get?_erase h).2
      · split_ifs at h
        · rwa [get?_erase_ne _ hf] at h
        · rwa [get?_insert_ne _ _ hf] at h

theorem H264Cache.get_dropWhere {p : UInt32 → Bool} (h : (c.dropWhere p).get f i = some y) :
    c.get f i = some y := by
  unfold get dropWhere at h
  obtain ⟨frame, hframe, hfrag⟩ := bind_eq_some_iff.1 h
  unfold get
  rw [((get?_retain_eq_some _ _ _ _).1 hframe).1]
  exact hfrag

theorem H264Cache.get_trimTo {n : ℕ} (h : (c.trimTo n).get f i = some y) : c.get f i = some y := by
  unfold trimTo at h
  split_ifs at h
  · exact h
  · cases h
  · split at h
    · exact get_dropWhere h
    · exact h

end Caches

variable {e e' : ReliableTileEmitter}

/-- The number a datagram carries. -/
def Sent.number (s : Sent) : WireSeq := be32At s.bytes 8

/-- `content` goes on the wire in a datagram that carries a fresh number, which becomes the newest
of its entry; the entries of everything else are as they were. -/
structure Emits (e e' : ReliableTileEmitter) (content : Content) : Prop
    extends Sends e e' content where
  logged : ∃ s, sentBetween e e' = [s] ∧ s.emitted.content = content ∧
    s.wireSeq = e.alloc.peek ∧ s.number = e.alloc.peek
  getFrag : ∀ f i x, e'.h264.get f i = some x →
    (content = .h264Frag f i ∧ x.latestWs = e.alloc.peek ∧ 12 ≤ x.datagram.length) ∨
      (content ≠ .h264Frag f i ∧ e.h264.get f i = some x)

theorem Emits.entryOf {content c : Content} {x : CacheEntry} (h : Emits e e' content)
    (hx : e'.entryOf c = some x) :
    (c = content ∧ x.latestWs = e.alloc.peek ∧ 12 ≤ x.datagram.length) ∨
      (c ≠ content ∧ e.entryOf c = some x) := by
  cases c with
  | tile k =>
    rcases h.get k x hx with ⟨hc, hnew⟩ | ⟨hc, hk⟩
    · exact .inl ⟨hc.symm, hnew⟩
    · exact .inr ⟨fun he => hc he.symm, hk⟩
  | h264Frag f i =>
    rcases h.getFrag f i x hx with ⟨hc, hnew⟩ | ⟨hc, hf⟩
    · exact .inl ⟨hc.symm, hnew⟩
    · exact .inr ⟨fun he => hc he.symm, hf⟩
  | pad ws => cases hx

theorem sentBetween_putOnWire {e1 : ReliableTileEmitter} (htx : e1.transmissions = e.transmissions)
    (hqueue : e1.queue.queue = e.queue.queue) (d : EmittedDatagram) (bytes : Bytes)
    (cls : WireClass) : sentBetween e (e1.putOnWire d bytes cls) = [⟨d, bytes⟩] := by
  simp [sentBetween, putOnWire, EmissionQueue.pushSource, htx, hqueue, Emission.bytes]

theorem Emits.of_tile {key : EmitKey} (h : Sends e e' (.tile key)) (hfrag : e'.h264 = e.h264)
    {s : Sent} (hlog : sentBetween e e' = [s]) (hcontent : s.emitted.content = .tile key)
    (hws : s.wireSeq = e.alloc.peek) (hnumber : s.number = e.alloc.peek) :
    Emits e e' (.tile key) :=
  ⟨h, ⟨s, hlog, hcontent, hws, hnumber⟩, fun _ _ _ hx => .inr ⟨nofun, hfrag ▸ hx⟩⟩

theorem be32At_append {xs : Bytes} (ys : Bytes) {i : ℕ} (h : i + 4 ≤ xs.length) :
    be32At (xs ++ ys) i = be32At xs i := by
  unfold be32At
  repeat rw [getD_append _ _ _ _ (by omega)]

theorem be32At_stampWireSeq {bytes : Bytes} (ws : WireSeq) (hlong : 12 ≤ bytes.length) :
    be32At (stampWireSeq bytes ws) 8 = ws := by
  have hlen : (bytes.take 8).length = 8 := by
    rw [length_take]
    omega
  simp [stampWireSeq, be32At, be32, getD_eq_getElem?_getD, getElem?_append, hlen]

theorem be32At_stampTile {bytes : Bytes} (ws : WireSeq) (emitUs : ℕ) (hlong : 12 ≤ bytes.length) :
    be32At (stampTile bytes ws emitUs) 8 = ws := by
  have hlen := length_stampSeq bytes ws
  have hseq : be32At (stampSeq bytes ws) 8 = ws := by
    rw [stampSeq, if_pos hlong]
    exact be32At_stampWireSeq ws hlong
  unfold stampTile
  simp only
  split_ifs
  · rw [append_assoc, be32At_append _ (by rw [length_take]; omega), ← hseq]
    nth_rewrite 2 [← take_append_drop 12 (stampSeq bytes ws)]
    rw [be32At_append _ (by rw [length_take]; omega), hseq]
  · exact hseq

theorem be32At_stampPad {template : Bytes} (ws : WireSeq) (hlong : 16 < template.length) :
    be32At (stampPad template ws) 8 = ws := by
  rw [stampPad, if_pos hlong]
  refine Eq.trans ?_ (be32At_stampWireSeq ws (by omega : 12 ≤ template.length))
  simp [be32At, getD_eq_getElem?_getD]

@[simp] theorem feedGroup_h264 (e : ReliableTileEmitter) (ws : WireSeq) (bytes : Bytes) :
    (e.feedGroup ws bytes).h264 = e.h264 := by
  unfold feedGroup
  split_ifs <;> rfl

@[simp] theorem feedRetx_queues (e : ReliableTileEmitter) (ws : WireSeq) (bytes : Bytes) :
    (e.feedRetx ws bytes).h264 = e.h264 ∧
      (e.feedRetx ws bytes).transmissions = e.transmissions ∧
      (e.feedRetx ws bytes).pendingNacks = e.pendingNacks ∧
      (e.feedRetx ws bytes).pendingLoss = e.pendingLoss ∧
      (e.feedRetx ws bytes).queue.queue = e.queue.queue := by
  unfold feedRetx
  split_ifs <;> simp

theorem length_encodeTileDatagram (inputs : TileFragmentInputs) (payload : Bytes) :
    12 ≤ (encodeTileDatagram inputs payload).length := by
  rw [encodeTileDatagram_eq]
  simp only [length_append, DatagramHeader.encode, be32, length_cons]
  omega

theorem submitTile_emits (e : ReliableTileEmitter) (key : EmitKey) (inputs : TileFragmentInputs)
    (payload : Bytes) (queuedAt : Instant) (probe : Option ProbeTag) (now : Instant)
    (schedulerRetry : Bool) :
    Emits e (e.submitOneAs key (encodeTileDatagram inputs payload) queuedAt probe now
      schedulerRetry) (.tile key) :=
  have hlong := length_encodeTileDatagram inputs payload
  .of_tile (submitOneAs_sends e key _ queuedAt probe now schedulerRetry hlong)
    (by simp [submitOneAs, putOnWire]) (sentBetween_putOnWire (by simp) (by simp) _ _ _) rfl rfl
    (be32At_stampTile _ _ hlong)

theorem submitH264Fragment_emits (e : ReliableTileEmitter) (frag : H264Submit) (now : Instant)
    (hlong : 12 ≤ frag.bytes.length) :
    Emits e (e.submitH264Fragment frag now) (.h264Frag frag.frameSeq frag.fragIdx) := by
  refine ⟨submitH264Fragment_sends e frag now,
    ⟨_, sentBetween_putOnWire rfl rfl _ _ _, rfl, rfl, ?_⟩, fun f i x hx => ?_⟩
  · unfold Sent.number
    rw [stampSeq, if_pos hlong]
    exact be32At_stampWireSeq _ hlong
  · rcases get_insert hx with ⟨rfl, rfl, rfl⟩ | ⟨hne, hget⟩
    · exact .inl ⟨rfl, rfl, hlong.trans_eq (length_stampSeq _ _).symm⟩
    · refine .inr ⟨?_, hget⟩
      rintro ⟨⟩
      exact hne ⟨rfl, rfl⟩

theorem submitH264Pad_emits (e : ReliableTileEmitter) (template : Bytes) (probe : ProbeTag)
    (now : Instant) (hlong : 16 < template.length) :
    Emits e (e.submitH264Pad template probe now) (.pad e.alloc.peek) :=
  ⟨⟨⟨rfl, ⟨_, rfl, rfl, rfl⟩, rfl, rfl, rfl, rfl, rfl⟩, fun _ _ hk => .inr ⟨nofun, hk⟩⟩,
    ⟨_, sentBetween_putOnWire rfl rfl _ _ _, rfl, rfl, be32At_stampPad _ hlong⟩,
    fun _ _ _ hx => .inr ⟨nofun, hx⟩⟩

/-- A resend of a cached pass, by a NACK or by a verdict. -/
theorem resend_emits (e : ReliableTileEmitter) (key : EmitKey) (c : CacheEntry) (now : Instant)
    (hlong : 12 ≤ c.datagram.length) :
    Emits e (e.nackResend key c now) (.tile key) ∧
        Emits e (e.lossResend key c now) (.tile key) := by
  have hseq : e.retxSeq c.datagram = e.alloc.peek := if_pos hlong
  obtain ⟨hnack, hloss⟩ := resend_sends e key c now hlong
  have hnumber : be32At (stampTile c.datagram (e.retxSeq c.datagram) (e.emitUs64 now)) 8 =
      e.alloc.peek := (be32At_stampTile _ _ hlong).trans hseq
  constructor
  · exact .of_tile hnack (by simp [nackResend, putOnWire])
      (sentBetween_putOnWire (by simp) (by simp) _ _ _) rfl hseq hnumber
  · exact .of_tile hloss (by simp [lossResend, putOnWire])
      (sentBetween_putOnWire (by simp) (by simp) _ _ _) rfl hseq hnumber

/-- What the loss queue sends again takes a fresh number. -/
theorem resendContent_emits {content : Content} {c : CacheEntry} (now : Instant)
    (hentry : e.entryOf content = some c) (hlong : 12 ≤ c.datagram.length)
    (e1 : ReliableTileEmitter) : Emits e1 (e1.resendContent c now content) content := by
  cases content with
  | tile key => exact (resend_emits e1 key c now hlong).2
  | h264Frag frameSeq fragIdx =>
    refine ⟨fragResend_sends e1 frameSeq fragIdx c now,
      ⟨_, sentBetween_putOnWire rfl rfl _ _ _, rfl, rfl, be32At_stampWireSeq _ hlong⟩,
      fun f i x hx => ?_⟩
    rcases get_set hx with ⟨rfl, rfl, rfl⟩ | ⟨hne, hget⟩
    · exact .inl ⟨rfl, rfl, hlong⟩
    · refine .inr ⟨?_, hget⟩
      rintro ⟨⟩
      exact hne ⟨rfl, rfl⟩
  | pad ws => cases hentry

/-! ### The invariant -/

/-- One counter can hand out this many numbers before the first comes again. -/
def wireSeqs : ℕ := 2 ^ 32 - 1

/-- The numbers of what was sent are consecutive, every datagram carries its own, every cached
entry has one of them as its newest, and none that a resend was judged by is anyone's newest any
more. -/
structure Repaired (log : List Sent) (repairs : List (Option WireSeq)) (e : ReliableTileEmitter) :
    Prop where
  numbers : log.map Sent.wireSeq = (List.range log.length).map UInt32.ofNat
  next : e.alloc.next = UInt32.ofNat log.length
  stamped : ∀ s ∈ log, s.number = s.wireSeq
  newest : ∀ c x, e.entryOf c = some x →
    ∃ s ∈ log, s.wireSeq = x.latestWs ∧ s.emitted.content = c
  long : ∀ c x, e.entryOf c = some x → 12 ≤ x.datagram.length
  settled : ∀ w, some w ∈ repairs → ∀ c x, e.entryOf c = some x → x.latestWs ≠ w
  known : ∀ r ∈ repairs, ∃ s ∈ log, some s.wireSeq = r
  once : repairs.Nodup
  queues : QueuedOnce e

theorem repaired_new (now : Instant) : Repaired [] [] (.new now) where
  numbers := rfl
  next := rfl
  stamped := nofun
  newest := by
    intro c x hx
    cases c <;> cases hx
  long := by
    intro c x hx
    cases c <;> cases hx
  settled := nofun
  known := nofun
  once := .nil
  queues := ⟨by simp [ReliableTileEmitter.new], .nil, by simp [ReliableTileEmitter.new], .nil⟩

/-- Consecutive numbers are distinct until they wrap. -/
theorem nodup_map_ofNat {n : ℕ} (h : n ≤ wireSeqs) :
    ((List.range n).map UInt32.ofNat).Nodup := by
  refine (nodup_map_iff_inj_on nodup_range).2 fun i hi j hj hij => ?_
  have hi := mem_range.1 hi
  have hj := mem_range.1 hj
  have hnat := congrArg toNat hij
  unfold wireSeqs at h
  rwa [toNat_ofNat_of_lt' (by simp only [UInt32.size]; omega),
    toNat_ofNat_of_lt' (by simp only [UInt32.size]; omega)] at hnat

section Steps

variable {log : List Sent} {repairs : List (Option WireSeq)} {content : Content}

theorem Repaired.number_inj (h : Repaired log repairs e) (hroom : log.length ≤ wireSeqs)
    {s s' : Sent} (hs : s ∈ log) (hs' : s' ∈ log) (heq : s.wireSeq = s'.wireSeq) : s = s' := by
  have hnodup := nodup_map_ofNat hroom
  rw [← h.numbers] at hnodup
  exact inj_on_of_nodup_map hnodup hs hs' heq

/-- What was sent has the number of its place. -/
theorem Repaired.toNat_lt (h : Repaired log repairs e) (hroom : log.length < wireSeqs) {s : Sent}
    (hs : s ∈ log) : s.wireSeq.toNat < log.length := by
  have hmem := mem_map_of_mem (f := Sent.wireSeq) hs
  rw [h.numbers] at hmem
  obtain ⟨i, hi, hws⟩ := mem_map.1 hmem
  have hlt := mem_range.1 hi
  unfold wireSeqs at hroom
  rwa [← hws, toNat_ofNat_of_lt' (by simp only [UInt32.size]; omega)]

theorem Repaired.peek_eq (h : Repaired log repairs e) (hroom : log.length < wireSeqs) :
    e.alloc.peek = UInt32.ofNat log.length := by
  rw [WireSeqAllocator.peek, h.next, if_neg]
  intro hmax
  have hnat := congrArg toNat hmax
  unfold wireSeqs at hroom
  rw [UInt32.toNat_ofNat_of_lt' (by simp only [UInt32.size]; omega)] at hnat
  have hmaxNat : noAck.toNat = 2 ^ 32 - 1 := rfl
  omega

theorem Repaired.fresh (h : Repaired log repairs e) (hroom : log.length < wireSeqs) {s : Sent}
    (hs : s ∈ log) : s.wireSeq ≠ e.alloc.peek := by
  intro heq
  have hlt := h.toNat_lt hroom hs
  unfold wireSeqs at hroom
  rw [heq, h.peek_eq hroom, toNat_ofNat_of_lt' (by simp only [UInt32.size]; omega)] at hlt
  exact lt_irrefl _ hlt

/-- **A transmission keeps the invariant.** -/
theorem Repaired.emits (h : Repaired log repairs e) (hem : Emits e e' content)
    (hroom : log.length < wireSeqs) : Repaired (log ++ sentBetween e e') repairs e' := by
  obtain ⟨d, hlog, hcontent, hws, hnumber⟩ := hem.logged
  have hlen : (log ++ [d]).length = log.length + 1 := by
    rw [length_append, length_singleton]
  have hpeek := h.peek_eq hroom
  rw [hlog]
  constructor
  · rw [hlen, map_append, h.numbers, range_succ, map_append, map_singleton, map_singleton, hws,
      hpeek]
  · rw [hem.alloc, WireSeqAllocator.advance, hpeek, hlen, ofNat_add]
    rfl
  · intro s hs
    rcases mem_append.1 hs with hs | hs
    · exact h.stamped s hs
    · rw [mem_singleton.1 hs, hnumber, hws]
  · intro c x hx
    rcases hem.entryOf hx with ⟨rfl, hnew, -⟩ | ⟨-, hx⟩
    · exact ⟨d, by simp, hws.trans hnew.symm, hcontent⟩
    · obtain ⟨s, hs, hsw⟩ := h.newest c x hx
      exact ⟨s, mem_append_left _ hs, hsw⟩
  · intro c x hx
    rcases hem.entryOf hx with ⟨-, -, hlong⟩ | ⟨-, hx⟩
    · exact hlong
    · exact h.long c x hx
  · intro w hw c x hx
    rcases hem.entryOf hx with ⟨-, hnew, -⟩ | ⟨-, hx⟩
    · obtain ⟨s, hs, hsw⟩ := h.known _ hw
      rw [hnew, ← some.inj hsw]
      exact (h.fresh hroom hs).symm
    · exact h.settled w hw c x hx
  · intro r hr
    obtain ⟨s, hs, hsw⟩ := h.known r hr
    exact ⟨s, mem_append_left _ hs, hsw⟩
  · exact h.once
  · exact h.queues.congr hem.nacks hem.nackSet hem.loss hem.lossSet

/-- **A resend settles the transmission it was judged by.** It was the newest of this content and
of no other, and now this content has a newer one. -/
theorem Repaired.resend (h : Repaired log repairs e) (hem : Emits e e' content)
    (hroom : log.length < wireSeqs) {x : CacheEntry} (hx : e.entryOf content = some x) :
    Repaired (log ++ sentBetween e e') (repairs ++ [some x.latestWs]) e' := by
  have h' := h.emits hem hroom
  obtain ⟨d, hd, hdw, hdc⟩ := h.newest content x hx
  refine { h' with settled := ?_, known := ?_, once := ?_ }
  · intro w hw c y hy
    rcases mem_append.1 hw with hw | hw
    · exact h'.settled w hw c y hy
    rw [some.inj (mem_singleton.1 hw), ← hdw]
    rcases hem.entryOf hy with ⟨-, hnew, -⟩ | ⟨hne, hy⟩
    · rw [hnew]
      exact (h.fresh hroom hd).symm
    · intro heq
      obtain ⟨d', hd', hdw', hdc'⟩ := h.newest c y hy
      have := h.number_inj (Nat.le_of_lt hroom) hd' hd (hdw'.trans heq)
      exact hne (hdc'.symm.trans (this ▸ hdc))
  · intro r hr
    rcases mem_append.1 hr with hr | hr
    · exact h'.known r hr
    · exact ⟨d, mem_append_left _ hd, by rw [hdw, mem_singleton.1 hr]⟩
  · refine nodup_append.2 ⟨h.once, nodup_singleton _, ?_⟩
    rintro a ha b hb rfl
    rw [mem_singleton] at hb
    exact h.settled x.latestWs (hb ▸ ha) content x hx rfl

/-- No number was taken; entries may have left the caches. -/
structure Rests (e e' : ReliableTileEmitter) : Prop where
  alloc : e'.alloc = e.alloc
  get : ∀ k x, e'.cache.get k = some x → e.cache.get k = some x
  getFrag : ∀ f i x, e'.h264.get f i = some x → e.h264.get f i = some x

theorem Rests.entryOf (hr : Rests e e') {c : Content} {x : CacheEntry}
    (hx : e'.entryOf c = some x) : e.entryOf c = some x := by
  cases c with
  | tile k => exact hr.get k x hx
  | h264Frag f i => exact hr.getFrag f i x hx
  | pad ws => cases hx

theorem Rests.same (hc : (e'.alloc, e'.cache, e'.h264) = (e.alloc, e.cache, e.h264)) :
    Rests e e' := by
  simp only [Prod.mk.injEq] at hc
  obtain ⟨ha, hcache, hfrags⟩ := hc
  exact ⟨ha, fun k x hk => hcache ▸ hk, fun f i x hk => hfrags ▸ hk⟩

theorem Repaired.rests (h : Repaired log repairs e) (hr : Rests e e') (hq : QueuedOnce e') :
    Repaired log repairs e' where
  __ := h
  next := by
    rw [hr.alloc]
    exact h.next
  newest := fun c x hx => h.newest c x (hr.entryOf hx)
  long := fun c x hx => h.long c x (hr.entryOf hx)
  settled := fun w hw c x hx => h.settled w hw c x (hr.entryOf hx)
  queues := hq

/-- Entries may have left the caches, and the queues are as they were. -/
structure Fewer (e e' : ReliableTileEmitter) : Prop extends Rests e e' where
  transmissions : e'.transmissions = e.transmissions
  nacks : e'.pendingNacks = e.pendingNacks
  nackSet : e'.pendingNackSet = e.pendingNackSet
  loss : e'.pendingLoss = e.pendingLoss
  lossSet : e'.pendingLossSet = e.pendingLossSet

theorem Fewer.of_rests (hr : Rests e e')
    (hq : (e'.transmissions, e'.pendingNacks, e'.pendingNackSet,
    e'.pendingLoss, e'.pendingLossSet) = (e.transmissions, e.pendingNacks, e.pendingNackSet,
    e.pendingLoss, e.pendingLossSet)) : Fewer e e' := by
  simp only [Prod.mk.injEq] at hq
  obtain ⟨htx, hn, hns, hl, hls⟩ := hq
  exact ⟨hr, htx, hn, hns, hl, hls⟩

theorem Fewer.refl (e : ReliableTileEmitter) : Fewer e e := .of_rests (.same rfl) rfl

theorem Fewer.trans {e'' : ReliableTileEmitter} (h : Fewer e e') (h' : Fewer e' e'') :
    Fewer e e'' :=
  ⟨⟨h'.alloc.trans h.alloc, fun k x hk => h.get k x (h'.get k x hk),
    fun f i x hk => h.getFrag f i x (h'.getFrag f i x hk)⟩,
    h'.transmissions.trans h.transmissions, h'.nacks.trans h.nacks, h'.nackSet.trans h.nackSet,
    h'.loss.trans h.loss, h'.lossSet.trans h.lossSet⟩

theorem Fewer.of_cache {c : RetransmitCache}
    (h : ∀ k x, c.get k = some x → e.cache.get k = some x) : Fewer e { e with cache := c } :=
  .of_rests ⟨rfl, h, fun _ _ _ hk => hk⟩ rfl

theorem Fewer.of_h264 {c : H264Cache} (h : ∀ f i x, c.get f i = some x → e.h264.get f i = some x) :
    Fewer e { e with h264 := c } :=
  .of_rests ⟨rfl, fun _ _ hk => hk, h⟩ rfl

theorem Repaired.shrink (h : Repaired log repairs e) (hs : Fewer e e') :
    Repaired log repairs e' :=
  h.rests hs.toRests (h.queues.congr hs.nacks hs.nackSet hs.loss hs.lossSet)

/-! ### The queues of waiting repairs -/

theorem Repaired.nackOne (h : Repaired log repairs e) (nacked : EmitKey) :
    Repaired log repairs (e.nackOne nacked) := by
  unfold ReliableTileEmitter.nackOne
  simp only
  split_ifs with hskip
  · exact h
  · exact h.rests (.same rfl) (h.queues.queueNack (not_or.1 hskip).2)

theorem Repaired.onNack (entries : List EmitKey) (h : Repaired log repairs e) :
    Repaired log repairs (e.onNack entries) := by
  unfold ReliableTileEmitter.onNack
  induction entries generalizing e with
  | nil => exact h
  | cons k entries ih => exact ih (h.nackOne k)

theorem Repaired.request (cfg : EmitterConfig) (h : Repaired log repairs e) (content : Content)
    (ws : WireSeq) (cause : RetxCause) :
    Repaired log repairs (e.requestRetransmit cfg content ws cause).1 := by
  rcases requestRetransmit_cases cfg e content ws cause with hr | ⟨c, hentry, -, hwait, hr | hr⟩
  · rw [hr]
    exact h
  · rw [hr]
    exact h.rests (.same rfl) (h.queues.queueLoss hwait cause _)
  · rw [hr]
    unfold defer
    rw [hentry]
    exact h.shrink (.of_rests (.same rfl) rfl)

theorem Repaired.popNack {key : EmitKey} {rest : List EmitKey} (h : Repaired log repairs e)
    (hqueue : e.pendingNacks = key :: rest) : Repaired log repairs (e.popNack key rest) :=
  h.rests (.same rfl) (h.queues.popNack hqueue)

theorem Repaired.popLoss {c : Content} {r : RetxCause × WireSeq}
    {rest : List (Content × RetxCause × WireSeq)} (h : Repaired log repairs e)
    (hqueue : e.pendingLoss = (c, r) :: rest) : Repaired log repairs (e.popLoss c rest) :=
  h.rests (.same rfl) (h.queues.popLoss hqueue)

/-! ### Whole turns -/

/-- The invariant, until the numbers run out. -/
def Sane (log : List Sent) (repairs : List (Option WireSeq)) (e : ReliableTileEmitter) : Prop :=
  log.length < wireSeqs → Repaired log repairs e

theorem Sane.shrink (h : Sane log repairs e) (hs : Fewer e e') : Sane log repairs e' :=
  fun hroom => (h hroom).shrink hs

theorem Sane.emits {new : List Sent} {repairs' : List (Option WireSeq)} (h : Sane log repairs e)
    (hstep : Repaired log repairs e → log.length < wireSeqs →
      Repaired (log ++ new) repairs' e') : Sane (log ++ new) repairs' e' := by
  intro hroom
  have hbefore : log.length < wireSeqs := by
    rw [length_append] at hroom
    omega
  exact hstep (h hbefore) hbefore

theorem Sane.sends (h : Sane log repairs e) (hem : Emits e e' content) :
    Sane (log ++ sentBetween e e') repairs e' :=
  h.emits fun hrep hroom => hrep.emits hem hroom

variable (now : Instant)

theorem sentBetween_trans {e'' : ReliableTileEmitter} (h : ∃ new, Extends e e' new)
    (h' : ∃ new, Extends e' e'' new) :
    sentBetween e e'' = sentBetween e e' ++ sentBetween e' e'' := by
  obtain ⟨new, h⟩ := h
  obtain ⟨new', h'⟩ := h'
  rw [(h.trans h').sentBetween_eq, h.sentBetween_eq, h'.sentBetween_eq]

/-- The NACK repairs that the budget lets out. -/
theorem Sane.tickNacks (maxRetransmits maxBytes : ℕ) (queue : List EmitKey)
    {e : ReliableTileEmitter} (count spent : ℕ) (hqueue : e.pendingNacks = queue)
    {log : List Sent} (h : Sane log repairs e) :
    Sane (log ++ sentBetween e (tickNacks now maxRetransmits maxBytes queue e count spent).1)
      repairs (tickNacks now maxRetransmits maxBytes queue e count spent).1 := by
  fun_induction ReliableTileEmitter.tickNacks now maxRetransmits maxBytes queue e count spent
    generalizing log with
  | case1 | case4 =>
    rw [sentBetween_of_le le_rfl, append_nil]
    exact h
  | case2 _ _ _ _ _ _ _ ih => exact ih rfl fun hroom => (h hroom).popNack hqueue
  | case3 key rest e _ _ _ c hc ih =>
    have hpop : Sane log repairs (e.popNack key rest) := fun hroom => (h hroom).popNack hqueue
    have hqueue' : ((e.popNack key rest).nackResend key c now).pendingNacks = rest := by
      simp [nackResend, putOnWire, popNack]
    have hnext := ih hqueue' (hpop.emits fun hrep hroom =>
      hrep.emits (resend_emits _ key c now (hrep.long (.tile key) c hc)).1 hroom)
    rw [append_assoc, ← sentBetween_trans ((e.popNack key rest).nackResend_extends key c now)
      (tickNacks_extends _ _ _ _ _ _ _)] at hnext
    exact hnext

theorem resendContent_sent {c : CacheEntry} (e1 : ReliableTileEmitter) (now : Instant)
    (hentry : e.entryOf content = some c) :
    (∃ s, sentBetween e1 (e1.resendContent c now content) = [s] ∧ s.emitted.content = content) ∧
      (e1.resendContent c now content).pendingLoss = e1.pendingLoss := by
  cases content with
  | tile key =>
    refine ⟨⟨_, sentBetween_putOnWire (by simp) (by simp) _ _ _, rfl⟩, ?_⟩
    simp [resendContent, lossResend, putOnWire]
  | h264Frag f i => exact ⟨⟨_, sentBetween_putOnWire rfl rfl _ _ _, rfl⟩, rfl⟩
  | pad ws => cases hentry

/-- **The resends of the loss path that the budget lets out**, each settling its verdict. -/
theorem Sane.tickLoss {judged : Content → Option WireSeq} (maxRetransmits maxBytes : ℕ)
    (queue : List (Content × RetxCause × WireSeq)) {e : ReliableTileEmitter} (count spent : ℕ)
    (hqueue : e.pendingLoss = queue) (hjudged : ∀ r ∈ queue, judged r.1 = some r.2.2)
    {log : List Sent} {repairs : List (Option WireSeq)} (h : Sane log repairs e) :
    Sane (log ++ sentBetween e (tickLoss now maxRetransmits maxBytes queue e count spent).1)
      (repairs ++ (sentBetween e (tickLoss now maxRetransmits maxBytes queue e count spent).1).map
        fun t => judged t.emitted.content)
      (tickLoss now maxRetransmits maxBytes queue e count spent).1 := by
  fun_induction ReliableTileEmitter.tickLoss now maxRetransmits maxBytes queue e count spent
    generalizing log repairs with
  | case1 | case5 =>
    rw [sentBetween_of_le le_rfl, append_nil]
    simpa using h
  | case2 content _ _ rest e _ _ _ _ ih | case3 content _ _ rest e _ _ _ _ _ _ ih =>
    exact ih rfl (fun r hr => hjudged r (mem_cons_of_mem _ hr)) fun hroom =>
      (h hroom).popLoss hqueue
  | case4 content cause judgedWs rest e _ _ _ c hc hnewer ih =>
    have hpop : Sane log repairs (e.popLoss content rest) := fun hroom => (h hroom).popLoss hqueue
    obtain ⟨⟨s, hlog, hcontent⟩, hloss⟩ := resendContent_sent (e.popLoss content rest) now hc
    have hnext := ih hloss (fun r hr => hjudged r (mem_cons_of_mem _ hr))
      (hpop.emits fun hrep hroom =>
        hrep.resend (resendContent_emits now hc (hrep.long content c hc) _) hroom hc)
    have hverdict : [some c.latestWs] =
        (sentBetween (e.popLoss content rest)
          ((e.popLoss content rest).resendContent c now content)).map
            fun t => judged t.emitted.content := by
      rw [hlog, map_singleton, hcontent, hjudged _ mem_cons_self, not_not.1 hnewer]
    rw [hverdict, append_assoc, append_assoc, ← map_append,
      ← sentBetween_trans ((e.popLoss content rest).resendContent_extends c now content)
        (tickLoss_extends _ _ _ _ _ _ _)] at hnext
    exact hnext

theorem judged_eq {r : Content × RetxCause × WireSeq} (h : (e.pendingLoss.map Prod.fst).Nodup)
    (hr : r ∈ e.pendingLoss) : e.judged r.1 = some r.2.2 := by
  obtain ⟨r', hfind⟩ : ∃ r', e.pendingLoss.find? (fun x => x.1 = r.1) = some r' :=
    Option.isSome_iff_exists.1 (find?_isSome.2 ⟨r, hr, by simp⟩)
  have hkey : r'.1 = r.1 := by simpa using find?_some hfind
  rw [judged, hfind, ← inj_on_of_nodup_map h (mem_of_find?_eq_some hfind) hr hkey, map_some]

/-- What requests, due deadlines and the probe timer keep, a turn of the loss path keeps. -/
structure Kept (cfg : EmitterConfig) (P : ReliableTileEmitter → Prop) : Prop where
  request : ∀ e content ws cause, P e → P (requestRetransmit cfg e content ws cause).1
  due : ∀ e now n, P e → P (e.takeDueDeferred now n).1
  fire : ∀ e now, P e → P (e.notePtoFire now)

section Kept

variable {cfg : EmitterConfig} {P : ReliableTileEmitter → Prop}

theorem Kept.requestAll (hP : Kept cfg P) (cause : RetxCause) (rs : List (Content × WireSeq)) :
    ∀ e, P e → P (Transport.requestAll cfg cause e rs) := by
  induction rs with
  | nil => exact fun _ h => h
  | cons r rs ih => exact fun e h => ih _ (hP.request e r.1 r.2 cause h)

variable {p : ReliablePath}

theorem Kept.detect (hP : Kept cfg P) (now : Instant) (h : P p.emitter) :
    P (p.detect cfg now).1.emitter := by
  unfold ReliablePath.detect resendDeferred
  simp only [foldl_verdictOne, foldl_deferredOne]
  exact hP.requestAll _ _ _ (hP.due _ now probeCount (hP.requestAll _ _ _ h))

theorem Kept.probeOne (hP : Kept cfg P) (out : Outcome) (ws : WireSeq) (tx : Transmission)
    (h : P p.emitter) : P (p.probeOne cfg out ws tx).1.emitter := by
  have hreq := hP.request p.emitter tx.content ws .probe h
  unfold ReliablePath.probeOne
  simp only
  split_ifs
  · rw [(dropGone_spec _ out ws tx).1]
    exact hreq
  · exact hreq

theorem Kept.probeRound (hP : Kept cfg P) (cands : List (WireSeq × Transmission)) :
    ∀ {p : ReliablePath} (out : Outcome) (removed : Bool), P p.emitter →
      P (ReliablePath.probeRound cfg cands p out removed).1.emitter := by
  induction cands with
  | nil => exact fun _ _ h => h
  | cons x cands ih =>
    intro p out removed h
    unfold ReliablePath.probeRound
    split_ifs
    · exact h
    · exact ih _ _ (hP.probeOne out x.1 x.2 h)

theorem Kept.probeRounds (hP : Kept cfg P) (n : ℕ) :
    ∀ {p : ReliablePath} (cursor : ℕ) (out : Outcome), P p.emitter →
      P (ReliablePath.probeRounds cfg n p cursor out).1.emitter := by
  induction n with
  | zero => exact fun _ _ h => h
  | succ n ih =>
    intro p cursor out h
    have hround := hP.probeRound (p.ledger.scanOutstanding cursor probeScan probeScan).2.2
      (p := ⟨p.emitter, (p.ledger.scanOutstanding cursor probeScan probeScan).1⟩) out false h
    unfold ReliablePath.probeRounds
    simp only
    split_ifs
    · exact h
    · exact hround
    · exact ih _ _ hround

theorem Kept.probe (hP : Kept cfg P) (now : Instant) (h : P p.emitter) :
    P (p.probe cfg now).1.emitter := by
  unfold ReliablePath.probe
  split_ifs
  · exact h
  · exact hP.probeRounds _ _ _ (hP.fire _ now h)

end Kept

/-! ### Acknowledgements and the other ways out of the caches -/

theorem releaseH264_shrinks (e : ReliableTileEmitter) (c : Content) :
    Fewer e (releaseH264 e c) := by
  cases c with
  | tile k => exact .refl e
  | h264Frag f i => exact .of_h264 fun _ _ _ hk => get_remove hk
  | pad ws => exact .of_rests (.same rfl) rfl

theorem foldl_releaseH264_shrinks (contents : List Content) :
    ∀ e, Fewer e (contents.foldl releaseH264 e) := by
  induction contents with
  | nil => exact .refl
  | cons c contents ih => exact fun e => (releaseH264_shrinks e c).trans (ih _)

theorem foldl_resolveOne_shrinks (minRtt : Duration) (wireSeqs : List WireSeq) :
    ∀ s : ReliablePath × List Content,
      Fewer s.1.emitter (wireSeqs.foldl (resolveOne now minRtt) s).1.emitter := by
  induction wireSeqs with
  | nil => exact fun s => .refl _
  | cons ws wireSeqs ih =>
    intro s
    refine Fewer.trans ?_ (ih _)
    unfold resolveOne
    simp only
    split
    · exact .refl _
    · exact .of_rests (.same rfl) rfl

theorem dispatchAck_shrinks (p : ReliablePath) (wireSeqs : List WireSeq) (now : Instant) :
    Fewer p.emitter (p.dispatchAck wireSeqs now).emitter := by
  refine (foldl_resolveOne_shrinks now (p.emitter.rtt.minRtt.getD 0) wireSeqs (p, [])).trans ?_
  refine Fewer.trans ?_ (foldl_releaseH264_shrinks _ _)
  exact .of_cache fun _ _ hk => (foldl_remove_get _ hk).1

theorem offerNext_shrinks (e : ReliableTileEmitter) (now : Instant) (accepted : Bool) :
    Fewer e (e.offerNext now accepted) := by
  have hqueue : ∀ q, Fewer e { e with queue := q } := fun _ => .of_rests (.same rfl) rfl
  unfold offerNext settleEmission
  split
  · exact hqueue _
  · split_ifs
    · exact hqueue _
    · exact hqueue _

theorem sane_kept (cfg : EmitterConfig) (sent : List EmittedDatagram) :
    Kept cfg fun e => e.transmissions = sent ∧ Sane log repairs e where
  request := fun e content ws cause h =>
    ⟨(requestRetransmit_rests cfg e content ws cause).2.trans h.1, fun hroom =>
      (h.2 hroom).request cfg content ws cause⟩
  due := fun _ _ _ h => ⟨h.1, h.2.shrink (.of_rests (.same rfl) rfl)⟩
  fire := fun _ _ h => ⟨h.1, h.2.shrink (.of_rests (.same rfl) rfl)⟩

theorem Repaired.clearCache (h : Repaired log repairs e) : Repaired log repairs e.clearCache := by
  refine h.rests ⟨rfl, ?_, ?_⟩ ⟨h.queues.nackSet, h.queues.nackNodup, ?_, .nil⟩
  · intro k x hk
    cases hk
  · intro f i x hk
    cases hk
  · simp [ReliableTileEmitter.clearCache]

theorem Sane.idle (htx : e'.transmissions.length ≤ e.transmissions.length)
    (h : Sane log repairs e') : Sane (log ++ sentBetween e e') (repairs ++ []) e' := by
  rw [sentBetween_of_le htx, append_nil, append_nil]
  exact h

theorem Sane.fewer (h : Sane log repairs e) (hs : Fewer e e') :
    Sane (log ++ sentBetween e e') (repairs ++ []) e' :=
  .idle (congrArg length hs.transmissions).le (h.shrink hs)

end Steps

/-- **Every event keeps the invariant.** -/
theorem sane_step (cfg : EmitterConfig) (s : RepairRun) (op : RepairOp)
    (h : Sane s.sent s.repairs s.path.emitter) :
    Sane (s.step cfg op).sent (s.step cfg op).repairs (s.step cfg op).path.emitter := by
  have hsends : ∀ {e' content}, Emits s.path.emitter e' content →
      Sane (s.sent ++ sentBetween s.path.emitter e') (s.repairs ++ []) e' := by
    intro e' content hem
    rw [append_nil]
    exact h.sends hem
  cases op with
  | submitTile key inputs payload queuedAt probe now retry =>
    exact hsends (submitTile_emits _ key inputs payload queuedAt probe now retry)
  | submitFragment frameSeq fragIdx isIdr header payload queuedAt probe now =>
    refine hsends (submitH264Fragment_emits _ _ now ?_)
    simp [FrameHeader.length_encode, frameHeaderSize]
    omega
  | submitPad header payload probe now =>
    refine hsends (submitH264Pad_emits _ _ probe now ?_)
    simp [FrameHeader.length_encode, frameHeaderSize]
    omega
  | onNack entries =>
    exact .idle (congrArg length (onNack_quiet entries _).transmissions).le fun hroom =>
      (h hroom).onNack entries
  | detect now =>
    obtain ⟨htx, hsane⟩ := (sane_kept cfg _).detect now ⟨rfl, h⟩
    exact .idle (congrArg length htx).le hsane
  | probe now =>
    obtain ⟨htx, hsane⟩ := (sane_kept cfg _).probe now ⟨rfl, h⟩
    exact .idle (congrArg length htx).le hsane
  | tickNacks now maxRetransmits maxBytes count =>
    show Sane _ (s.repairs ++ []) _
    rw [append_nil]
    exact Sane.tickNacks now maxRetransmits maxBytes _ count 0 rfl h
  | tickLoss now maxRetransmits maxBytes count =>
    intro hroom
    have hbefore : s.sent.length < wireSeqs := by
      refine Nat.lt_of_le_of_lt ?_ hroom
      rw [RepairRun.step, length_append]
      exact Nat.le_add_right _ _
    exact Sane.tickLoss now maxRetransmits maxBytes _ count 0 rfl
      (fun _ hr => judged_eq (h hbefore).queues.lossNodup hr) h hroom
  | recordTransmissions now =>
    exact .idle (Nat.zero_le _) fun hroom =>
      (h hroom).rests (.same rfl) ((h hroom).queues.congr rfl rfl rfl rfl)
  | stampDeparture | onSample | purgeQueuedH264 | expireH264Pad | setTileFec =>
    exact h.fewer (.of_rests (.same rfl) rfl)
  | dispatchAck wireSeqs now => exact h.fewer (dispatchAck_shrinks _ wireSeqs now)
  | cancelForTile tile => exact h.fewer (.of_cache fun _ _ hk => cancelForTile_get hk)
  | retireStuck now olderThan => exact h.fewer (.of_cache fun _ _ hk => (foldl_remove_get _ hk).1)
  | supersedeH264Before frameSeq =>
    exact h.fewer (.of_rests ⟨rfl, fun _ _ hk => hk, fun _ _ _ hk => get_dropWhere hk⟩ rfl)
  | dropH264From | dropH264Frame => exact h.fewer (.of_h264 fun _ _ _ hk => get_dropWhere hk)
  | trimH264Cache => exact h.fewer (.of_h264 fun _ _ _ hk => get_trimTo hk)
  | offerNext now accepted => exact h.fewer (offerNext_shrinks _ now accepted)
  | ledger op => exact h.fewer (.refl _)
  | clearCache => exact .idle le_rfl fun hroom => (h hroom).clearCache

/-- **Each loss is repaired at most once.** In every run with fewer than `2 ^ 32 - 1` datagrams
put on the wire, each datagram of the loss path answers a verdict and no two of them one about the
same transmission; no two datagrams carry the same number and none carries `NO_ACK`; and no pass or
fragment waits twice in a repair queue. -/
theorem repaired_at_most_once (cfg : EmitterConfig) (now : Instant) (capacity : ℕ)
    (ops : List RepairOp)
    (hroom : (run (RepairRun.step cfg) (.start now capacity) ops).sent.length < 2 ^ 32 - 1) :
    let r := run (RepairRun.step cfg) (.start now capacity) ops
    r.repairs.Nodup ∧ none ∉ r.repairs ∧ (r.sent.map Sent.number).Nodup ∧
      (∀ s ∈ r.sent, s.number = s.wireSeq ∧ s.number ≠ noAck) ∧
      r.path.emitter.pendingNacks.Nodup ∧ (r.path.emitter.pendingLoss.map Prod.fst).Nodup := by
  intro r
  change r.sent.length < _ at hroom
  have hsane : Sane r.sent r.repairs r.path.emitter :=
    run_inv (I := fun s : RepairRun => Sane s.sent s.repairs s.path.emitter)
      (fun s op _ h => sane_step cfg s op h) fun _ => repaired_new now
  have hrep := hsane hroom
  refine ⟨hrep.once, ?_, ?_, ?_, hrep.queues.nackNodup, hrep.queues.lossNodup⟩
  · intro hnone
    obtain ⟨s, -, hs⟩ := hrep.known _ hnone
    cases hs
  · rw [map_congr_left hrep.stamped, hrep.numbers]
    exact nodup_map_ofNat (Nat.le_of_lt hroom)
  · intro s hs
    have hlt := hrep.toNat_lt hroom hs
    refine ⟨hrep.stamped s hs, ?_⟩
    rw [hrep.stamped s hs]
    intro hmax
    rw [hmax] at hlt
    have hmaxNat : noAck.toNat = 2 ^ 32 - 1 := rfl
    omega

/-- The first of four passes is judged lost and repaired, its repair is asked for by a NACK, and a
fragment and padding go out between. -/
def repairRun : List RepairOp :=
  ([0, 1, 2, 3].map fun n =>
    .submitTile ⟨1, n, 0, 0⟩ ⟨1, n, 0, .cdf53, 0, 0, 0⟩ [n] 0 none 0 false) ++
    .recordTransmissions 0 :: ([0, 1, 2, 3].map fun ws => .stampDeparture ws 1) ++
    [.dispatchAck [3] 2, .detect 2, .tickLoss 3 8 1000 0,
      .submitFragment 1 0 true ⟨1, 0, 1, 0, 0, 1, 0, 0⟩ [7] 3 none 3,
      .submitPad ⟨1, 0, 1, 0, 0, 1, 0, 0⟩ [7] ⟨0, 0, 0, 0⟩ 3, .onNack [⟨1, 0, 0, 0⟩],
      .tickNacks 4 8 1000 0]

theorem repaired_at_most_once_run :
    let r := run (RepairRun.step {}) (.start 0 100) repairRun
    r.repairs = [some 0] ∧ r.sent.map Sent.number = [0, 1, 2, 3, 4, 5, 6, 7] ∧
      r.path.emitter.pendingNacks.Nodup := by
  have hroom : (run (RepairRun.step {}) (.start 0 100) repairRun).sent.length < 2 ^ 32 - 1 := by
    decide +kernel
  exact ⟨by decide +kernel, by decide +kernel,
    (repaired_at_most_once {} 0 100 repairRun hroom).2.2.2.2.1⟩

end Ghostframe.Transport
