import Ghostframe.Lib.Run
import Ghostframe.Transport.Emitter

/-!
# What a parity envelope says about the wire

Five sites of the emitter take a `wire_seq` and only some of them feed the parity
group. The numbers of a parity envelope still name exactly the datagrams it was
computed from: the group builder abandons a group at every gap.

* `sentBetween`: what one operation put on the wire;
* `Collects.add`: the builder holds such a run, and a full one becomes an envelope;
* `Extends`: an operation appends to the log and keeps the envelopes truthful;
* `parity_envelope_truthful`: the same along every run.
-/

namespace Ghostframe.Transport

open Protocol EmissionQueue GroupBuilder List ReliableTileEmitter UInt32

/-! ### The log of what was sent -/

/-- A transmission and its bytes on the wire. -/
structure Sent where
  emitted : EmittedDatagram
  bytes : Bytes
  deriving DecidableEq

/-- The number a transmission was sent under. -/
def Sent.wireSeq (s : Sent) : WireSeq := s.emitted.wireSeq

/-- The bytes of an emission. -/
def Emission.bytes : Emission → Bytes
  | .source b _ => b
  | .parity b _ => b

/-- What was put on the wire between two states: the new transmissions, each with the source
queued for it. -/
def sentBetween (e e' : ReliableTileEmitter) : List Sent :=
  List.zipWith (fun d q => ⟨d, q.bytes⟩) (e'.transmissions.drop e.transmissions.length)
    (e'.queue.queue.drop e.queue.queue.length)

/-! ### Runs of consecutive tile transmissions -/

/-- Tile transmissions of the log, in order, numbered consecutively from `first`. -/
structure TileRun (log : List Sent) (first : WireSeq) (group : List Sent) : Prop where
  sublist : group.Sublist log
  tiles : ∀ s ∈ group, s.emitted.content.isTile = true
  seqs : group.map Sent.wireSeq = (List.range group.length).map fun i => first + .ofNat i

variable {alloc : WireSeqAllocator} {e : ReliableTileEmitter} (q : EmissionQueue) {log : List Sent}
  (now : Instant) {first : WireSeq} {e' : ReliableTileEmitter} {s : Sent} {group : List Sent}

theorem TileRun.mono (h : TileRun log first group) (more : List Sent) :
    TileRun (log ++ more) first group :=
  ⟨h.sublist.trans (sublist_append_left _ _), h.tiles, h.seqs⟩

theorem TileRun.single (log : List Sent) (hs : s.emitted.content.isTile = true) :
    TileRun (log ++ [s]) s.wireSeq [s] where
  sublist := List.sublist_append_right _ _
  tiles := by
    intro t ht
    rwa [mem_singleton.1 ht]
  seqs := by simp

theorem TileRun.snoc (h : TileRun log first group) (hs : s.emitted.content.isTile = true)
    (hws : s.wireSeq = first + .ofNat group.length) :
    TileRun (log ++ [s]) first (group ++ [s]) where
  sublist := h.sublist.append (List.Sublist.refl _)
  tiles := by
    intro t ht
    rcases mem_append.1 ht with ht | ht
    · exact h.tiles t ht
    · rwa [mem_singleton.1 ht]
  seqs := by
    rw [length_append, length_singleton, range_succ, map_append,
      map_append, h.seqs]
    simp [hws]

/-- The envelope is the parity of a run of tile transmissions, under their numbers: as long as the
longest of them and, byte by byte from the end, their XOR. -/
structure Covers (log : List Sent) (env : TileParityEnvelope) (group : List Sent) : Prop where
  run : TileRun log env.groupFirstWireSeq group
  count : group.length = env.k.toNat
  lens : env.sourceLens = group.map fun s => .ofNat s.bytes.length
  longest : ∀ s ∈ group, s.bytes.length ≤ env.parityPayload.length
  attained : ∃ s ∈ group, s.bytes.length = env.parityPayload.length
  payload : ∀ i, tailByte env.parityPayload i = xorAll (group.map fun s => tailByte s.bytes i)

/-- The bytes are those of an envelope that tells the truth. -/
def CoveredBy (log : List Sent) (bytes : Bytes) : Prop :=
  ∃ env group, bytes = env.encode ∧ Covers log env group

theorem CoveredBy.mono {bytes : Bytes} (h : CoveredBy log bytes) (more : List Sent) :
    CoveredBy (log ++ more) bytes := by
  obtain ⟨env, group, henc, hcov⟩ := h
  exact ⟨env, group, henc, { hcov with run := hcov.run.mono more }⟩

/-! ### The group builder -/

/-- The group in progress is empty, or a run of tile transmissions that is not full yet. -/
def Collects (log : List Sent) (g : GroupBuilder) : Prop :=
  g = .new fecGroupSizeK ∨
    ∃ first group, TileRun log first group ∧ group.length < fecGroupSizeK ∧
      g = .partway fecGroupSizeK first (group.map Sent.bytes)

theorem Collects.mono {g : GroupBuilder} (h : Collects log g) (more : List Sent) :
    Collects (log ++ more) g := by
  rcases h with h | ⟨first, group, hrun, hrest⟩
  · exact .inl h
  · exact .inr ⟨first, group, hrun.mono more, hrest⟩

theorem length_fullGroup (group : List Sent) :
    (fullGroup fecGroupSizeK first (group.map Sent.bytes)).envelope.parityPayload.length =
      maxLength (group.map Sent.bytes) := length_xorPayloads _

/-- The result of a full run is an envelope that covers it. -/
theorem covers_fullGroup (hrun : TileRun log first group) (hlen : group.length = fecGroupSizeK) :
    Covers log (fullGroup fecGroupSizeK first (group.map Sent.bytes)).envelope
      group where
  run := hrun
  count := hlen
  lens := by simp [GroupResult.envelope, fullGroup]
  longest := by
    intro s hs
    rw [length_fullGroup]
    exact length_le_maxLength (mem_map_of_mem hs)
  attained := by
    have hne : group.map Sent.bytes ≠ [] := by
      intro hnil
      rw [map_eq_nil_iff.1 hnil] at hlen
      cases hlen
    obtain ⟨b, hb, hlong⟩ := exists_length_eq_maxLength hne
    obtain ⟨s, hs, rfl⟩ := mem_map.1 hb
    exact ⟨s, hs, hlong.trans (length_fullGroup group).symm⟩
  payload := by
    intro i
    refine (tailByte_xorPayloads _ i).trans ?_
    rw [map_map]
    rfl

theorem collects_add_new (log : List Sent) (hs : s.emitted.content.isTile = true) :
    Collects (log ++ [s]) ((GroupBuilder.new fecGroupSizeK).add s.wireSeq s.bytes).1 ∧
      ((GroupBuilder.new fecGroupSizeK).add s.wireSeq s.bytes).2 = none := by
  rw [add_new, if_pos (by decide)]
  exact ⟨.inr ⟨s.wireSeq, [s], TileRun.single log hs, by simp [fecGroupSizeK], rfl⟩, rfl⟩

/-- A tile transmission fed to the builder: it holds a run again, and what it reports is covered. -/
theorem Collects.add {g : GroupBuilder} (h : Collects log g)
    (hs : s.emitted.content.isTile = true) :
    Collects (log ++ [s]) (g.add s.wireSeq s.bytes).1 ∧
      ∀ r, (g.add s.wireSeq s.bytes).2 = some r →
        CoveredBy (log ++ [s]) r.envelope.encode := by
  have hnew := collects_add_new log hs
  rcases h with rfl | ⟨first, group, hrun, hlen, rfl⟩
  · refine ⟨hnew.1, ?_⟩
    simp [hnew.2]
  by_cases hws : s.wireSeq = first + .ofNat group.length
  · have hsnoc := hrun.snoc hs hws
    have hadd : (partway fecGroupSizeK first (group.map Sent.bytes)).add
        (first + .ofNat (group.map Sent.bytes).length) s.bytes = _ :=
      add_partway s.bytes
    rw [length_map, ← hws] at hadd
    rw [hadd]
    split_ifs with hk
    · refine ⟨.inr ⟨first, group ++ [s], hsnoc, ?_, by simp⟩, by simp⟩
      simpa using hk
    · have hfull : (group ++ [s]).length = fecGroupSizeK := by
        rw [length_append, length_singleton]
        omega
      refine ⟨.inl rfl, ?_⟩
      rintro r ⟨⟩
      refine ⟨_, group ++ [s], rfl, ?_⟩
      have hcov := covers_fullGroup hsnoc hfull
      rwa [map_append] at hcov
  · -- a gap: the partial group is abandoned, as if the builder were new
    rw [add_partway_gap s.bytes (by rwa [length_map])]
    refine ⟨hnew.1, ?_⟩
    simp [hnew.2]

/-! ### Numbers are allocated once -/

/-- While every datagram has room for its number and the numbers have not wrapped, the `i`-th
transmission carries the number `i`. -/
def Numbered (alloc : WireSeqAllocator) (log : List Sent) : Prop :=
  (∀ s ∈ log, 12 ≤ s.bytes.length) → log.length < 2 ^ 32 →
    alloc.next = .ofNat log.length ∧
      log.map Sent.wireSeq = (List.range log.length).map UInt32.ofNat

theorem peek_eq_of_lt {n : ℕ} (hnext : alloc.next = .ofNat n) (hn : n + 1 < 2 ^ 32) :
    alloc.peek = .ofNat n := by
  have hsize : UInt32.size = 2 ^ 32 := rfl
  have hmax : (0xFFFFFFFF : UInt32).toNat = 2 ^ 32 - 1 := rfl
  unfold WireSeqAllocator.peek
  rw [if_neg, hnext]
  rw [hnext, noAck, ← UInt32.toNat_inj, UInt32.toNat_ofNat_of_lt' (by omega), hmax]
  omega

theorem Numbered.snoc (h : Numbered alloc log) (hws : s.wireSeq = alloc.peek) :
    Numbered alloc.advance (log ++ [s]) := by
  intro hlong hlen
  rw [length_append, length_singleton] at hlen
  obtain ⟨hnext, hseqs⟩ := h (fun t ht => hlong t (mem_append_left _ ht)) (by omega)
  have hpeek := peek_eq_of_lt hnext hlen
  rw [length_append, length_singleton]
  constructor
  · rw [WireSeqAllocator.advance, hpeek, ofNat_add]
    rfl
  · rw [range_succ, map_append, map_append, hseqs]
    simp [hws, hpeek]

/-- A retransmission without a number is too short to count. -/
theorem Numbered.short (hs : s.bytes.length < 12) : Numbered alloc (log ++ [s]) := by
  intro hlong _
  have := hlong s (by simp)
  omega

/-- Below the wrap no two transmissions share a number. -/
theorem Numbered.injective (h : Numbered alloc log) (hlong : ∀ s ∈ log, 12 ≤ s.bytes.length)
    (hlen : log.length < 2 ^ 32) {t : Sent} (hs : s ∈ log) (ht : t ∈ log)
    (hst : s.wireSeq = t.wireSeq) : s = t := by
  have hnodup : (log.map Sent.wireSeq).Nodup := by
    rw [(h hlong hlen).2]
    refine nodup_range.map_on ?_
    intro i hi j hj hij
    rw [mem_range] at hi hj
    have hsize : size = 2 ^ 32 := rfl
    have := congrArg toNat hij
    rwa [toNat_ofNat_of_lt' (by omega), toNat_ofNat_of_lt' (by omega)] at this
  exact inj_on_of_nodup_map hnodup hs ht hst

/-! ### One operation -/

/-- The emitter never schedules a parity that lies about the log. -/
structure Truthful (e : ReliableTileEmitter) (log : List Sent) : Prop where
  fec : e.tileFec = true
  collects : Collects log e.group
  pending : ∀ p ∈ e.queue.pendingParity, CoveredBy log p.2
  queued : ∀ b g, Emission.parity b g ∈ e.queue.queue → CoveredBy log b
  numbered : Numbered e.alloc log

/-- `e'` is `e` after the transmissions `new`, and truthful if `e` was. -/
structure Extends (e e' : ReliableTileEmitter) (new : List Sent) : Prop where
  transmissions : e'.transmissions = e.transmissions ++ new.map Sent.emitted
  queue : ∃ qs, e'.queue.queue = e.queue.queue ++ qs ∧ qs.map Emission.bytes = new.map Sent.bytes
  truthful : ∀ log, Truthful e log → Truthful e' (log ++ new)

theorem Extends.trans {e'' : ReliableTileEmitter} {new new' : List Sent} (h : Extends e e' new)
    (h' : Extends e' e'' new') : Extends e e'' (new ++ new') where
  transmissions := by
    rw [h'.transmissions, h.transmissions, map_append, append_assoc]
  queue := by
    obtain ⟨qs, hqs, hbytes⟩ := h.queue
    obtain ⟨qs', hqs', hbytes'⟩ := h'.queue
    refine ⟨qs ++ qs', ?_, ?_⟩
    · rw [hqs', hqs, append_assoc]
    · rw [map_append, map_append, hbytes, hbytes']
  truthful := by
    intro log hlog
    rw [← append_assoc]
    exact h'.truthful _ (h.truthful log hlog)

/-- The log entries are read off the two outputs. -/
theorem Extends.sentBetween_eq {new : List Sent} (h : Extends e e' new) :
    sentBetween e e' = new := by
  obtain ⟨qs, hqs, hbytes⟩ := h.queue
  unfold sentBetween
  rw [h.transmissions, hqs, drop_left, drop_left]
  clear hqs h
  induction new generalizing qs with
  | nil => simp
  | cons s new ih =>
    cases qs with
    | nil => simp at hbytes
    | cons q qs =>
      rw [map_cons, map_cons, List.cons.injEq] at hbytes
      rw [map_cons, zipWith_cons_cons, ih qs hbytes.2, hbytes.1]

/-- Nothing the parity groups depend on has changed. -/
structure Quiet (e e' : ReliableTileEmitter) : Prop where
  alloc : e'.alloc = e.alloc
  group : e'.group = e.group
  queue : e'.queue = e.queue
  tileFec : e'.tileFec = e.tileFec
  transmissions : e'.transmissions = e.transmissions

open Quiet

theorem Quiet.refl (e : ReliableTileEmitter) : Quiet e e := ⟨rfl, rfl, rfl, rfl, rfl⟩

theorem Quiet.trans {e'' : ReliableTileEmitter} (h : Quiet e e') (h' : Quiet e' e'') :
    Quiet e e'' :=
  ⟨h'.alloc.trans h.alloc, h'.group.trans h.group, h'.queue.trans h.queue,
    h'.tileFec.trans h.tileFec, h'.transmissions.trans h.transmissions⟩

theorem Quiet.extends (h : Quiet e e') : Extends e e' [] where
  transmissions := by simp [h.transmissions]
  queue := ⟨[], by simp [h.queue], rfl⟩
  truthful := by
    intro log hlog
    rw [append_nil]
    refine ⟨h.tileFec.trans hlog.fec, ?_, ?_, ?_, ?_⟩
    · rw [h.group]
      exact hlog.collects
    · rw [h.queue]
      exact hlog.pending
    · rw [h.queue]
      exact hlog.queued
    · rw [h.alloc]
      exact hlog.numbered

namespace ReliableTileEmitter

/-- `e1` is `e` with the counter at `alloc` and other caches. -/
structure Prepared (e e1 : ReliableTileEmitter) (alloc : WireSeqAllocator) : Prop where
  alloc : e1.alloc = alloc
  group : e1.group = e.group
  queue : e1.queue = e.queue
  tileFec : e1.tileFec = e.tileFec
  transmissions : e1.transmissions = e.transmissions

variable (e : ReliableTileEmitter) {e1 : ReliableTileEmitter} (key : EmitKey) (entry : CacheEntry)
  (now : Instant)

/-- A datagram that is not fed to the group: the parity in the making is left alone. -/
theorem putOnWire_extends {e : ReliableTileEmitter} {alloc : WireSeqAllocator}
    (h : Prepared e e1 alloc) (d : EmittedDatagram) (bytes : Bytes) (cls : WireClass)
    (hnum : ∀ log, Numbered e.alloc log → Numbered alloc (log ++ [⟨d, bytes⟩])) :
    Extends e (e1.putOnWire d bytes cls) [⟨d, bytes⟩] where
  transmissions := by simp [putOnWire, h.transmissions]
  queue := ⟨[.source bytes cls], by simp [putOnWire, pushSource, h.queue], rfl⟩
  truthful := by
    intro log hlog
    refine ⟨h.tileFec.trans hlog.fec, ?_, ?_, ?_, ?_⟩
    · show Collects _ e1.group
      rw [h.group]
      exact hlog.collects.mono _
    · intro p hp
      replace hp : p ∈ e1.queue.pendingParity := hp
      rw [h.queue] at hp
      exact (hlog.pending p hp).mono _
    · intro b g hb
      replace hb : Emission.parity b g ∈ e1.queue.queue ++ [.source bytes cls] := hb
      rw [h.queue] at hb
      simp only [mem_append, mem_singleton, reduceCtorEq, or_false] at hb
      exact (hlog.queued b g hb).mono _
    · show Numbered e1.alloc _
      rw [h.alloc]
      exact hnum log hlog.numbered

theorem feedGroup_of_on {e : ReliableTileEmitter} (hfec : e.tileFec = true) (ws : WireSeq)
    (bytes : Bytes) :
    e.feedGroup ws bytes =
      { e with
        group := (e.group.add ws bytes).1
        queue := scheduleGroup e.queue (e.group.add ws bytes).2 } := by
  rw [feedGroup, if_neg (by simp [hfec])]

@[simp] theorem scheduleGroup_queue (q : EmissionQueue) (r : Option GroupResult) :
    (scheduleGroup q r).queue = q.queue := by
  cases r <;> rfl

@[simp] theorem feedGroup_queue_queue (ws : WireSeq) (bytes : Bytes) :
    (e.feedGroup ws bytes).queue.queue = e.queue.queue := by
  unfold feedGroup
  split_ifs
  · rfl
  · exact scheduleGroup_queue _ _

theorem mem_scheduleGroup {q : EmissionQueue} {r : Option GroupResult} {p : WireSeq × Bytes}
    (hp : p ∈ (scheduleGroup q r).pendingParity) :
    p ∈ q.pendingParity ∨ ∃ g, r = some g ∧ p.2 = g.envelope.encode := by
  cases r with
  | none => exact .inl hp
  | some g =>
    rcases (mem_orderedInsert _).1 hp with rfl | hp
    · exact .inr ⟨g, rfl, rfl⟩
    · exact .inl hp

/-- A tile transmission with a fresh number that is fed to the group. -/
theorem feedGroup_extends {e : ReliableTileEmitter} (h : Prepared e e1 e.alloc.advance)
    (d : EmittedDatagram) (bytes : Bytes) (cls : WireClass) (hws : d.wireSeq = e.alloc.peek)
    (htile : d.content.isTile = true) :
    Extends e ((e1.feedGroup d.wireSeq bytes).putOnWire d bytes cls) [⟨d, bytes⟩] where
  transmissions := by simp [putOnWire, h.transmissions]
  queue := ⟨[.source bytes cls], by simp [putOnWire, pushSource, h.queue], rfl⟩
  truthful := by
    intro log hlog
    have hfec : e1.tileFec = true := h.tileFec.trans hlog.fec
    obtain ⟨hcollects, hreport⟩ := hlog.collects.add (s := ⟨d, bytes⟩) htile
    rw [feedGroup_of_on hfec]
    refine ⟨hfec, ?_, ?_, ?_, ?_⟩
    · show Collects _ (e1.group.add d.wireSeq bytes).1
      rw [h.group]
      exact hcollects
    · intro p hp
      replace hp : p ∈ (scheduleGroup e1.queue (e1.group.add d.wireSeq bytes).2).pendingParity := hp
      rw [h.queue, h.group] at hp
      rcases mem_scheduleGroup hp with hp | ⟨r, hr, hbytes⟩
      · exact (hlog.pending p hp).mono _
      · rw [hbytes]
        exact hreport r hr
    · intro b g hb
      replace hb : Emission.parity b g ∈
          (scheduleGroup e1.queue (e1.group.add d.wireSeq bytes).2).queue ++
            [.source bytes cls] := hb
      rw [scheduleGroup_queue, h.queue] at hb
      simp only [mem_append, mem_singleton, reduceCtorEq, or_false] at hb
      exact (hlog.queued b g hb).mono _
    · show Numbered e1.alloc _
      rw [h.alloc]
      exact hlog.numbered.snoc hws

/-! ### The emitter's operations -/

theorem submitOneAs_extends (source : Bytes) (queuedAt : Instant) (probe : Option ProbeTag)
    (now : Instant) (schedulerRetry : Bool) :
    ∃ new, Extends e (e.submitOneAs key source queuedAt probe now schedulerRetry) new := by
  unfold submitOneAs
  refine ⟨_, feedGroup_extends ?_ ⟨e.alloc.peek, _, _, .tile key⟩ _ _ rfl rfl⟩
  exact ⟨rfl, rfl, rfl, rfl, rfl⟩

theorem submitH264Fragment_extends (frag : H264Submit) (now : Instant) :
    ∃ new, Extends e (e.submitH264Fragment frag now) new := by
  unfold submitH264Fragment
  refine ⟨_, putOnWire_extends ?_ _ _ _ fun _ hnum => hnum.snoc rfl⟩
  exact ⟨rfl, rfl, rfl, rfl, rfl⟩

theorem submitH264Pad_extends (template : Bytes) (probe : ProbeTag) (now : Instant) :
    ∃ new, Extends e (e.submitH264Pad template probe now) new := by
  unfold submitH264Pad
  refine ⟨_, putOnWire_extends ?_ _ _ _ fun _ hnum => hnum.snoc rfl⟩
  exact ⟨rfl, rfl, rfl, rfl, rfl⟩

/-- A tile resend takes a number and is fed to the group, or is too short for both. -/
theorem resend_extends {e : ReliableTileEmitter} (datagram : Bytes)
    (h : Prepared e e1 (e.retxAlloc datagram)) (key : EmitKey) (emitUs emitUs' : ℕ)
    (cls : WireClass) :
    ∃ new, Extends e
      ((e1.feedRetx (e.retxSeq datagram) (stampTile datagram (e.retxSeq datagram) emitUs)).putOnWire
        ⟨e.retxSeq datagram, emitUs',
          (stampTile datagram (e.retxSeq datagram) emitUs).length, .tile key⟩
        (stampTile datagram (e.retxSeq datagram) emitUs) cls) new := by
  by_cases hlen : 12 ≤ datagram.length
  · have hseq : e.retxSeq datagram = e.alloc.peek := if_pos hlen
    have halloc : e.retxAlloc datagram = e.alloc.advance := if_pos hlen
    rw [halloc] at h
    rw [feedRetx, if_pos (by rwa [length_stampTile])]
    exact ⟨_, feedGroup_extends h ⟨e.retxSeq datagram, _, _, .tile key⟩ _ _ hseq rfl⟩
  · rw [feedRetx, if_neg (by rwa [length_stampTile])]
    refine ⟨_, putOnWire_extends h _ _ _ fun log _ => Numbered.short ?_⟩
    rw [length_stampTile]
    omega

theorem nackResend_extends : ∃ new, Extends e (e.nackResend key entry now) new := by
  unfold nackResend
  refine resend_extends entry.datagram ?_ key _ _ _
  exact ⟨rfl, rfl, rfl, rfl, rfl⟩

theorem lossResend_extends : ∃ new, Extends e (e.lossResend key entry now) new := by
  unfold lossResend
  refine resend_extends entry.datagram ?_ key _ _ _
  exact ⟨rfl, rfl, rfl, rfl, rfl⟩

theorem fragResend_extends (frameSeq : UInt32) (fragIdx : UInt16) (entry : CacheEntry)
    (now : Instant) : ∃ new, Extends e (e.fragResend frameSeq fragIdx entry now) new := by
  unfold fragResend
  refine ⟨_, putOnWire_extends ?_ _ _ _ fun _ hnum => hnum.snoc rfl⟩
  exact ⟨rfl, rfl, rfl, rfl, rfl⟩

theorem resendContent_extends (content : Content) :
    ∃ new, Extends e (e.resendContent entry now content) new := by
  cases content with
  | tile key => exact e.lossResend_extends key entry now
  | h264Frag frameSeq fragIdx => exact e.fragResend_extends frameSeq fragIdx entry now
  | pad ws => exact ⟨[], (refl e).extends⟩

theorem exists_extends_trans {e e' e'' : ReliableTileEmitter} (h : ∃ new, Extends e e' new)
    (h' : ∃ new, Extends e' e'' new) : ∃ new, Extends e e'' new := by
  obtain ⟨new, h⟩ := h
  obtain ⟨new', h'⟩ := h'
  exact ⟨new ++ new', h.trans h'⟩

variable (maxRetransmits maxBytes : ℕ)

theorem tickNacks_extends (queue : List EmitKey)
    (e : ReliableTileEmitter) (count spent : ℕ) :
    ∃ new, Extends e (tickNacks now maxRetransmits maxBytes queue e count spent).1 new := by
  have hpop : ∀ (e : ReliableTileEmitter) key rest, ∃ new, Extends e (e.popNack key rest) new :=
    fun _ _ _ => ⟨[], Quiet.extends ⟨rfl, rfl, rfl, rfl, rfl⟩⟩
  fun_induction tickNacks now maxRetransmits maxBytes queue e count spent with
  | case1 e | case4 _ _ e => exact ⟨[], (refl e).extends⟩
  | case2 key rest e _ _ _ _ ih => exact exists_extends_trans (hpop e key rest) ih
  | case3 key rest e _ _ _ entry _ ih =>
    have hsend := (e.popNack key rest).nackResend_extends key entry now
    exact exists_extends_trans (exists_extends_trans (hpop e key rest) hsend) ih

theorem tickLoss_extends
    (queue : List (Content × RetxCause × WireSeq)) (e : ReliableTileEmitter) (count spent : ℕ) :
    ∃ new, Extends e (tickLoss now maxRetransmits maxBytes queue e count spent).1 new := by
  have hpop : ∀ (e : ReliableTileEmitter) content rest,
      ∃ new, Extends e (e.popLoss content rest) new :=
    fun _ _ _ => ⟨[], Quiet.extends ⟨rfl, rfl, rfl, rfl, rfl⟩⟩
  fun_induction tickLoss now maxRetransmits maxBytes queue e count spent with
  | case1 e | case5 _ _ _ _ e => exact ⟨[], (refl e).extends⟩
  | case2 content _ _ rest e _ _ _ _ ih | case3 content _ _ rest e _ _ _ _ _ _ ih =>
    exact exists_extends_trans (hpop e content rest) ih
  | case4 content _ _ rest e _ _ _ entry _ _ ih =>
    have hsend := (e.popLoss content rest).resendContent_extends entry now content
    exact exists_extends_trans (exists_extends_trans (hpop e content rest) hsend) ih

theorem tickBudgeted_extends :
    ∃ new, Extends e (e.tickBudgeted now maxRetransmits maxBytes).1 new :=
  exists_extends_trans (tickNacks_extends _ _ _ _ _ _ _) (tickLoss_extends _ _ _ _ _ _ _)

theorem nackOne_quiet (nacked : EmitKey) : Quiet e (e.nackOne nacked) := by
  unfold nackOne
  simp only
  split_ifs
  · exact refl e
  · exact ⟨rfl, rfl, rfl, rfl, rfl⟩

theorem onNack_quiet (entries : List EmitKey) :
    ∀ e : ReliableTileEmitter, Quiet e (e.onNack entries) := by
  induction entries with
  | nil => exact refl
  | cons nacked entries ih =>
    intro e
    exact (e.nackOne_quiet nacked).trans (ih _)

theorem requestRetransmit_quiet (cfg : EmitterConfig) (e : ReliableTileEmitter)
    (content : Content) (ws : WireSeq) (cause : RetxCause) :
    Quiet e (e.requestRetransmit cfg content ws cause).1 := by
  unfold requestRetransmit
  split_ifs
  · exact refl e
  · cases e.classifyRetx content ws cause with
    | queued => exact ⟨rfl, rfl, rfl, rfl, rfl⟩
    | deferred =>
      show Quiet e (e.defer cfg content ws)
      unfold defer
      split
      · exact refl e
      · exact ⟨rfl, rfl, rfl, rfl, rfl⟩
    | contentGone | newerInFlight | alreadyQueued | disabled | notRetransmitted => exact refl e

end ReliableTileEmitter

/-! ### Operations that only take from the queue -/

/-- The queue holds no parity it did not hold before. -/
structure Takes (q q' : EmissionQueue) : Prop where
  pending : ∀ p ∈ q'.pendingParity, p ∈ q.pendingParity
  queued : ∀ b g, Emission.parity b g ∈ q'.queue →
    Emission.parity b g ∈ q.queue ∨ ∃ after, (after, b) ∈ q.pendingParity

theorem Takes.refl : Takes q q := ⟨fun _ hp => hp, fun _ _ hb => .inl hb⟩

theorem Takes.trans {q q' q'' : EmissionQueue} (h : Takes q q') (h' : Takes q' q'') :
    Takes q q'' where
  pending := fun p hp => h.pending p (h'.pending p hp)
  queued := by
    intro b g hb
    rcases h'.queued b g hb with hb | ⟨after, hp⟩
    · exact h.queued b g hb
    · exact .inr ⟨after, h.pending _ hp⟩

/-- Parity that moves from the heap to the back of the queue. -/
theorem takes_of_promoted {q q' : EmissionQueue} {moved : List (WireSeq × Bytes)}
    (hmoved : ∀ p ∈ moved, p ∈ q.pendingParity)
    (hqueue : q'.queue = q.queue ++ moved.map promoted)
    (hpending : ∀ p ∈ q'.pendingParity, p ∈ q.pendingParity) : Takes q q' where
  pending := hpending
  queued := by
    intro b g hb
    rw [hqueue, mem_append, mem_map] at hb
    rcases hb with hb | ⟨p, hp, hprom⟩
    · exact .inl hb
    · cases hprom
      exact .inr ⟨p.1, hmoved p hp⟩

theorem promote_takes (nextWireSeq : WireSeq) : Takes q (q.promote nextWireSeq) :=
  takes_of_promoted (fun _ hp => (takeWhile_sublist _).subset hp) rfl
    (fun _ hp => (dropWhile_sublist _).subset hp)

theorem maybeFlushPending_takes : Takes q (q.maybeFlushPending now) := by
  unfold maybeFlushPending
  split
  · exact Takes.refl q
  · split_ifs
    · exact Takes.refl q
    · exact takes_of_promoted (fun _ hp => hp) rfl (by simp)

/-- What `pop` hands out was in the queue or in the heap, and the rest still is. -/
theorem pop_takes (nextWireSeq : WireSeq) (now : Instant) :
    Takes q (q.pop nextWireSeq now).1 ∧ ∀ e, (q.pop nextWireSeq now).2 = some e →
      Takes q ((q.pop nextWireSeq now).1.pushFront e) := by
  have hfirst := (promote_takes q nextWireSeq).trans (maybeFlushPending_takes _ now)
  unfold pop
  generalize (q.promote nextWireSeq).maybeFlushPending now = q1 at hfirst
  simp only
  split
  · rename_i em rest hq1
    refine ⟨hfirst.trans ⟨fun _ hp => hp, fun b g hb => .inl ?_⟩, ?_⟩
    · rw [hq1]
      exact mem_cons_of_mem _ hb
    · rintro e ⟨⟩
      refine hfirst.trans ⟨fun _ hp => hp, fun b g hb => .inl ?_⟩
      rw [hq1]
      exact hb
  · split_ifs
    · exact ⟨hfirst.trans ⟨fun _ hp => hp, fun _ _ hb => .inl hb⟩, nofun⟩
    · exact ⟨hfirst, nofun⟩

theorem Truthful.takes (h : Truthful e log) (hq : Takes e.queue e'.queue)
    (halloc : e'.alloc = e.alloc) (hgroup : e'.group = e.group) (hfec : e'.tileFec = e.tileFec) :
    Truthful e' log where
  fec := hfec.trans h.fec
  collects := by
    rw [hgroup]
    exact h.collects
  pending := fun p hp => h.pending p (hq.pending p hp)
  queued := by
    intro b g hb
    rcases hq.queued b g hb with hb | ⟨after, hp⟩
    · exact h.queued b g hb
    · exact h.pending _ hp
  numbered := by
    rw [halloc]
    exact h.numbered

theorem sentBetween_of_le (h : e'.transmissions.length ≤ e.transmissions.length) :
    sentBetween e e' = [] := by
  unfold sentBetween
  rw [drop_eq_nil_of_le h, zipWith_nil_left]

/-! ### Runs of the emitter -/

/-- One call of the emitter. -/
inductive EmitterOp
  | submitOne (key : EmitKey) (source : Bytes) (queuedAt : Instant) (probe : Option ProbeTag)
      (now : Instant) (schedulerRetry : Bool)
  | submitH264Fragment (frag : ReliableTileEmitter.H264Submit) (now : Instant)
  | submitH264Pad (template : Bytes) (probe : ProbeTag) (now : Instant)
  | onNack (entries : List EmitKey)
  | requestRetransmit (cfg : EmitterConfig) (content : Content) (ws : WireSeq) (cause : RetxCause)
  | takeDueDeferred (now : Instant) (n : ℕ)
  | tickBudgeted (now : Instant) (maxRetransmits maxBytes : ℕ)
  | onAck (keys : List EmitKey)
  | onH264Ack (frameSeq : UInt32) (fragIdx : UInt16)
  | cancelForTile (tile : UInt8 × UInt8)
  | supersedeH264Before (frameSeq : UInt32)
  | takeTransmissions
  | offerNext (now : Instant) (accepted : Bool)

/-- The state after one call. -/
def EmitterOp.apply (e : ReliableTileEmitter) : EmitterOp → ReliableTileEmitter
  | .submitOne key source queuedAt probe now retry =>
    e.submitOneAs key source queuedAt probe now retry
  | .submitH264Fragment frag now => e.submitH264Fragment frag now
  | .submitH264Pad template probe now => e.submitH264Pad template probe now
  | .onNack entries => e.onNack entries
  | .requestRetransmit cfg content ws cause => (e.requestRetransmit cfg content ws cause).1
  | .takeDueDeferred now n => (e.takeDueDeferred now n).1
  | .tickBudgeted now maxRetransmits maxBytes => (e.tickBudgeted now maxRetransmits maxBytes).1
  | .onAck keys => e.onAck keys
  | .onH264Ack frameSeq fragIdx => e.onH264Ack frameSeq fragIdx
  | .cancelForTile tile => e.cancelForTile tile
  | .supersedeH264Before frameSeq => e.supersedeH264Before frameSeq
  | .takeTransmissions => e.takeTransmissions.1
  | .offerNext now accepted => e.offerNext now accepted

/-- An emitter with the log of everything it has put on the wire. -/
structure EmitterRun where
  emitter : ReliableTileEmitter
  sent : List Sent

open EmitterRun

namespace EmitterRun

/-- A new emitter with tile parity on. -/
def start (now : Instant) : EmitterRun := ⟨(ReliableTileEmitter.new now).setTileFec true, []⟩

def step (s : EmitterRun) (op : EmitterOp) : EmitterRun where
  emitter := op.apply s.emitter
  sent := s.sent ++ sentBetween s.emitter (op.apply s.emitter)

/-- A parity datagram the emitter has scheduled: held back, or queued for the transport. -/
def Scheduled (s : EmitterRun) (bytes : Bytes) : Prop :=
  (∃ after, (after, bytes) ∈ s.emitter.queue.pendingParity) ∨
    ∃ g, Emission.parity bytes g ∈ s.emitter.queue.queue

end EmitterRun

theorem Extends.step {s : EmitterRun} {op : EmitterOp}
    (h : ∃ new, Extends s.emitter (op.apply s.emitter) new) (hs : Truthful s.emitter s.sent) :
    Truthful (s.step op).emitter (s.step op).sent := by
  obtain ⟨new, h⟩ := h
  show Truthful _ (s.sent ++ sentBetween _ _)
  rw [h.sentBetween_eq]
  exact h.truthful _ hs

theorem truthful_step_of_le {s : EmitterRun} {op : EmitterOp}
    (hsent : (op.apply s.emitter).transmissions.length ≤ s.emitter.transmissions.length)
    (h : Truthful (op.apply s.emitter) s.sent) :
    Truthful (s.step op).emitter (s.step op).sent := by
  show Truthful _ (s.sent ++ sentBetween _ _)
  rw [sentBetween_of_le hsent, append_nil]
  exact h

theorem offerNext_takes (e : ReliableTileEmitter) (now : Instant) (accepted : Bool) :
    Takes e.queue (e.offerNext now accepted).queue := by
  have hpop := pop_takes e.queue e.alloc.peek now
  unfold offerNext
  cases hem : (e.nextEmission now).2 with
  | none => exact hpop.1
  | some em =>
    cases accepted with
    | true => exact hpop.1
    | false => exact hpop.2 em hem

theorem offerNext_frame (e : ReliableTileEmitter) (now : Instant) (accepted : Bool) :
    (e.offerNext now accepted).alloc = e.alloc ∧ (e.offerNext now accepted).group = e.group ∧
      (e.offerNext now accepted).tileFec = e.tileFec ∧
      (e.offerNext now accepted).transmissions = e.transmissions := by
  unfold offerNext
  cases (e.nextEmission now).2 with
  | none => exact ⟨rfl, rfl, rfl, rfl⟩
  | some em => cases accepted <;> exact ⟨rfl, rfl, rfl, rfl⟩

theorem purgeFrames_takes (doomed : UInt32 → Bool) : Takes q (q.purgeFrames doomed) :=
  ⟨fun _ hp => hp, fun _ _ hb => .inl (mem_filter.1 hb).1⟩

/-- Every call keeps the emitter truthful about the log. -/
theorem truthful_step (s : EmitterRun) (op : EmitterOp) (hs : Truthful s.emitter s.sent) :
    Truthful (s.step op).emitter (s.step op).sent := by
  cases op with
  | submitOne key source queuedAt probe now retry =>
    exact Extends.step (s.emitter.submitOneAs_extends key source queuedAt probe now retry) hs
  | submitH264Fragment frag now =>
    exact Extends.step (s.emitter.submitH264Fragment_extends frag now) hs
  | submitH264Pad template probe now =>
    exact Extends.step (s.emitter.submitH264Pad_extends template probe now) hs
  | onNack entries =>
    exact Extends.step ⟨[], (onNack_quiet entries s.emitter).extends⟩ hs
  | requestRetransmit cfg content ws cause =>
    exact Extends.step ⟨[], (s.emitter.requestRetransmit_quiet cfg content ws cause).extends⟩ hs
  | takeDueDeferred | onAck | onH264Ack | cancelForTile =>
    exact Extends.step ⟨[], Quiet.extends ⟨rfl, rfl, rfl, rfl, rfl⟩⟩ hs
  | tickBudgeted now maxRetransmits maxBytes =>
    exact Extends.step (s.emitter.tickBudgeted_extends now maxRetransmits maxBytes) hs
  | supersedeH264Before frameSeq =>
    refine truthful_step_of_le le_rfl ?_
    exact hs.takes (purgeFrames_takes _ _) rfl rfl rfl
  | takeTransmissions =>
    refine truthful_step_of_le (Nat.zero_le _) ?_
    exact hs.takes (Takes.refl _) rfl rfl rfl
  | offerNext now accepted =>
    obtain ⟨halloc, hgroup, hfec, htrans⟩ := offerNext_frame s.emitter now accepted
    refine truthful_step_of_le (congrArg length htrans).le ?_
    exact hs.takes (offerNext_takes _ now accepted) halloc hgroup hfec

theorem truthful_start :
    Truthful (start now).emitter (start now).sent where
  fec := rfl
  collects := .inl rfl
  pending := nofun
  queued := nofun
  numbered := fun _ _ => ⟨rfl, rfl⟩

theorem truthful_run (ops : List EmitterOp) :
    Truthful (run step (.start now) ops).emitter
      (run step (.start now) ops).sent :=
  run_inv (fun s op _ hs => truthful_step s op hs) (truthful_start now)

/-- **FEC membership is truthful.** With tile parity on from the start, every parity datagram
the emitter has scheduled after any sequence of calls decodes to an envelope for `k` tile
transmissions of the log: their numbers are `g, g + 1, …, g + k - 1` and its payload is the XOR of
their bytes.
While the numbers have not wrapped, nothing else was ever sent under one of them. -/
theorem parity_envelope_truthful (now : Instant) (ops : List EmitterOp) (bytes : Bytes)
    (h : (run EmitterRun.step (.start now) ops).Scheduled bytes) :
    ∃ env group, bytes = env.encode ∧ TileParityEnvelope.decode bytes = .ok env ∧
      Covers (run EmitterRun.step (.start now) ops).sent env group ∧
      ((∀ s ∈ (run EmitterRun.step (.start now) ops).sent, 12 ≤ s.bytes.length) →
        (run EmitterRun.step (.start now) ops).sent.length < 2 ^ 32 →
        ∀ s ∈ (run EmitterRun.step (.start now) ops).sent,
          s.wireSeq ∈ group.map Sent.wireSeq → s ∈ group) := by
  have htruth := truthful_run now ops
  have hcovered : CoveredBy (run step (.start now) ops).sent bytes := by
    rcases h with ⟨after, hp⟩ | ⟨g, hb⟩
    · exact htruth.pending _ hp
    · exact htruth.queued _ g hb
  obtain ⟨env, group, henc, hcov⟩ := hcovered
  have hdecode : TileParityEnvelope.decode env.encode = .ok env :=
    TileParityEnvelope.decode_encode env (by rw [hcov.lens, length_map, hcov.count])
  refine ⟨env, group, henc, henc ▸ hdecode, hcov, ?_⟩
  intro hlong hlen s hs hws
  obtain ⟨t, ht, hts⟩ := mem_map.1 hws
  rwa [htruth.numbered.injective hlong hlen hs (hcov.run.sublist.subset ht) hts.symm]

/-- Ten passes, with an H.264 fragment before them. -/
def tenPasses : List EmitterOp :=
  .submitH264Fragment ⟨0, 0, true, List.replicate 12 0, 0, none⟩ 0 ::
    (List.range 10).map fun i =>
      .submitOne ⟨1, .ofNat i, 0, 0⟩ (List.replicate 12 (.ofNat i)) 0 none 0 false

theorem parity_envelope_truthful_tenPasses :
    (run EmitterRun.step (.start 0) tenPasses).emitter.queue.pendingParity = [(21,
        [4, 0, 0, 0, 1, 10, 0] ++ (List.replicate 10 [0, 12]).flatten ++
          [1, 1, 1, 1, 1, 1, 1, 1, 0, 0, 0, 11])] ∧
      ∃ env group,
        TileParityEnvelope.decode ([4, 0, 0, 0, 1, 10, 0] ++ (List.replicate 10 [0, 12]).flatten ++
          [1, 1, 1, 1, 1, 1, 1, 1, 0, 0, 0, 11]) = .ok env ∧
        Covers (run EmitterRun.step (.start 0) tenPasses).sent env group := by
  have hpending : (run step (.start 0) tenPasses).emitter.queue.pendingParity = [(21,
      [4, 0, 0, 0, 1, 10, 0] ++ (List.replicate 10 [0, 12]).flatten ++
        [1, 1, 1, 1, 1, 1, 1, 1, 0, 0, 0, 11])] := by
    decide +kernel
  obtain ⟨env, group, -, hdecode, hcov, -⟩ := parity_envelope_truthful 0 tenPasses _
    (.inl ⟨21, by rw [hpending]; exact mem_singleton_self _⟩)
  exact ⟨hpending, env, group, hdecode, hcov⟩

end Ghostframe.Transport
