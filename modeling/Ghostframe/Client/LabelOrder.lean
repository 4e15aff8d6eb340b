import Ghostframe.Client.Reassembly

/-!
# Labels never go back on a CDF 5/3 tile

The labels of a stretch of a session lie in a window of `2 ^ 29` frames, where
31-bit serial order is the order of the distances from the window's start.

* `offset`, `InWindow`: the distance of a label from the start of the window;
* `LabelInv`: what the client holds for a tile is no newer than what it received;
* `cdf53_labels_never_older`: the labels of the passes handed up never go back.
-/

namespace Ghostframe.Client

open Codec Protocol ClientCore List

/-! ### Serial arithmetic -/

theorem toNat_and_frameSeqMask (x : UInt32) : (x &&& frameSeqMask).toNat = x.toNat % 2 ^ 31 := by
  exact Nat.and_two_pow_sub_one_eq_mod x.toNat 31

theorem forward31_eq (a b : UInt32) :
    forward31 a b = (a.toNat + 2 ^ 32 - b.toNat) % 2 ^ 31 := by
  have hb := b.toNat_lt
  rw [forward31, toNat_and_frameSeqMask, UInt32.toNat_sub]
  omega

theorem forwardMasked_eq (a b : UInt32) : forwardMasked a b = forward31 a b := by
  have hb := b.toNat_lt
  rw [forwardMasked, toNat_and_frameSeqMask, UInt32.toNat_sub, toNat_and_frameSeqMask,
    toNat_and_frameSeqMask, forward31_eq]
  omega

/-- The distance of a label from the start of the window. -/
def offset (base label : UInt32) : ℕ := forward31 label base

/-- The label lies in the window of `2 ^ 29` frames that starts at `base`. -/
def InWindow (base label : UInt32) : Prop := offset base label < 2 ^ 29

instance (base label : UInt32) : Decidable (InWindow base label) :=
  inferInstanceAs (Decidable (_ < _))

theorem forward31_eq_offset (base a b : UInt32) :
    forward31 a b = (offset base a + 2 ^ 31 - offset base b) % 2 ^ 31 := by
  have hb := b.toNat_lt
  have hbase := base.toNat_lt
  rw [offset, offset, forward31_eq, forward31_eq, forward31_eq]
  omega

section Window

variable {base a b : UInt32} (ha : InWindow base a) (hb : InWindow base b)

include ha hb

/-- **Inside the window, newer means further from its start.** -/
theorem frameSeqIsNewer_iff : frameSeqIsNewer a b = true ↔ offset base b < offset base a := by
  unfold InWindow at ha hb
  rw [frameSeqIsNewer, Bool.and_eq_true, decide_eq_true_iff, decide_eq_true_iff,
    forward31_eq_offset base]
  omega

/-- A label received is not so old that what is held before it expires. -/
theorem not_labelExpired (hle : offset base b ≤ offset base a) :
    labelExpired b (some a) = false := by
  unfold InWindow at ha hb
  rw [labelExpired, Option.any_some, forwardMasked_eq, forward31_eq_offset base]
  have hlt : ¬ labelExpiry < (offset base a + 2 ^ 31 - offset base b) % 2 ^ 31 := by
    rw [labelExpiry]
    omega
  rw [decide_eq_false hlt, Bool.false_and]

end Window

theorem offset_and_mask (base label : UInt32) :
    offset base (label &&& frameSeqMask) = offset base label := by
  have hbase := base.toNat_lt
  rw [offset, offset, forward31_eq, forward31_eq, toNat_and_frameSeqMask]
  omega

variable {frameSeq : UInt32}

/-- An arrival that is not stale is not older than what is held. -/
theorem offset_le_of_not_stale {base : UInt32} {e : CoverageEntry} {generation : UInt8}
    (he : InWindow base e.frameSeq) (hf : InWindow base frameSeq)
    (h : classifyArrival e.generation e.frameSeq generation frameSeq ≠ .stale) :
    offset base e.frameSeq ≤ offset base frameSeq := by
  rw [← offset_and_mask base e.frameSeq, ← offset_and_mask base frameSeq]
  by_cases hmask : frameSeq &&& frameSeqMask = e.frameSeq &&& frameSeqMask
  · rw [hmask]
  · have hnew :
        frameSeqIsNewer (frameSeq &&& frameSeqMask) (e.frameSeq &&& frameSeqMask) = true := by
      by_contra hnot
      apply h
      unfold classifyArrival
      rw [if_pos hmask, if_neg hnot]
    have hwin : ∀ label, InWindow base label → InWindow base (label &&& frameSeqMask) := by
      intro label hl
      rw [InWindow, offset_and_mask]
      exact hl
    exact ((frameSeqIsNewer_iff (hwin _ hf) (hwin _ he)).1 hnew).le

/-! ### What the client holds -/

/-- Payloads are handed up, nothing waits to be rebuilt, and what is held for a tile is no newer
than what was received. -/
structure LabelInv (base : UInt32) (c : ClientCore) : Prop where
  payloadMode : c.decoder = none
  pending : c.parityDecoder.pendingParities = []
  newest : ∀ n, c.newestReceivedLabel = some n → InWindow base n
  held : ∀ pos e, c.cdf53Coverage.get? pos = some e →
    InWindow base e.frameSeq ∧
      ∃ n, c.newestReceivedLabel = some n ∧ offset base e.frameSeq ≤ offset base n

/-- How far the passes of a tile have got. -/
def mark (base : UInt32) (pos : UInt8 × UInt8) (c : ClientCore) : Option ℕ :=
  (c.cdf53Coverage.get? pos).map fun e => offset base e.frameSeq

/-- The label of a CDF 5/3 pass handed up for a tile. -/
def cdf53Label (pos : UInt8 × UInt8) : Event → Option UInt32
  | .tilePayload frameSeq tileX tileY _ (.cdf53 ..) =>
    if (tileX, tileY) = pos then some frameSeq else none
  | .tilePayload frameSeq tileX tileY _ (.cdf53Wire ..) =>
    if (tileX, tileY) = pos then some frameSeq else none
  | _ => none

/-- The labels handed up for a tile, in order. -/
def cdf53Labels (pos : UInt8 × UInt8) (events : List Event) : List UInt32 :=
  events.filterMap (cdf53Label pos)

/-- A step keeps the invariant, never moves a mark back, and hands up at most one label for the
tile: one that is not behind the mark before it nor ahead of the mark after it. -/
structure Forward (base : UInt32) (pos : UInt8 × UInt8) (c : ClientCore)
    (r : ClientCore × List Event) : Prop where
  inv : LabelInv base r.1
  mark_le : ∀ m, mark base pos c = some m → ∃ m', mark base pos r.1 = some m' ∧ m ≤ m'
  labels : cdf53Labels pos r.2 = [] ∨
    ∃ label m', cdf53Labels pos r.2 = [label] ∧ InWindow base label ∧
      (∀ m, mark base pos c = some m → m ≤ offset base label) ∧
      mark base pos r.1 = some m' ∧ offset base label ≤ m'

open Forward

variable {base : UInt32} {pos : UInt8 × UInt8} {c c' : ClientCore}

theorem LabelInv.congr (h : LabelInv base c) (hcov : c'.cdf53Coverage = c.cdf53Coverage)
    (hnew : c'.newestReceivedLabel = c.newestReceivedLabel)
    (hpar : c'.parityDecoder.pendingParities = c.parityDecoder.pendingParities)
    (hdec : c'.decoder = c.decoder) : LabelInv base c' := by
  refine ⟨by rw [hdec]; exact h.payloadMode, by rw [hpar]; exact h.pending, ?_, ?_⟩
  · rw [hnew]
    exact h.newest
  · rw [hcov, hnew]
    exact h.held

theorem Forward.of_same {events : List Event} (h : LabelInv base c')
    (hcov : c'.cdf53Coverage = c.cdf53Coverage) (hevents : cdf53Labels pos events = []) :
    Forward base pos c (c', events) := by
  refine ⟨h, ?_, Or.inl hevents⟩
  intro m hm
  refine ⟨m, ?_, le_rfl⟩
  rw [mark, hcov]
  exact hm

theorem Forward.of_coverage_eq {r : ClientCore × List Event} (h : Forward base pos c' r)
    (hcov : c'.cdf53Coverage = c.cdf53Coverage) : Forward base pos c r := by
  have hmark : mark base pos c = mark base pos c' := by rw [mark, mark, hcov]
  exact ⟨h.inv, by rw [hmark]; exact h.mark_le, by rw [hmark]; exact h.labels⟩

/-! ### The reports a datagram causes leave the labels alone -/

/-- Asking for passes changes the queue of requests only. -/
theorem queuePassNacks_spec (c : ClientCore) (frameSeq : UInt32) (tileX tileY : UInt8) (nowUs : ℕ)
    (passes : List UInt8) :
    let c' := passes.foldl (fun c p => c.queuePassNack frameSeq tileX tileY nowUs p) c
    c'.cdf53Coverage = c.cdf53Coverage ∧ c'.newestReceivedLabel = c.newestReceivedLabel ∧
      c'.parityDecoder = c.parityDecoder ∧ c'.decoder = c.decoder := by
  dsimp only
  induction passes generalizing c with
  | nil => exact ⟨rfl, rfl, rfl, rfl⟩
  | cons p passes ih =>
    obtain ⟨h1, h2, h3, h4⟩ := ih (c.queuePassNack frameSeq tileX tileY nowUs p)
    rw [foldl_cons, h1, h2, h3, h4]
    unfold queuePassNack
    simp only
    split_ifs <;> exact ⟨rfl, rfl, rfl, rfl⟩

/-! ### A pass -/

/-- Nothing held for a tile has expired. -/
theorem LabelInv.heldCoverage_eq (h : LabelInv base c) (th : TileHeader) :
    c.heldCoverage th = c.cdf53Coverage.get? (th.tileX, th.tileY) := by
  unfold heldCoverage
  cases hget : c.cdf53Coverage.get? (th.tileX, th.tileY) with
  | none => rfl
  | some e =>
    obtain ⟨he, n, hn, hle⟩ := h.held _ e hget
    rw [hn]
    simp [Option.filter, not_labelExpired (h.newest n hn) he hle]

variable {th : TileHeader}

/-- A pass that is not dropped is not stale. -/
theorem arrivalOrder_ne_stale
    (hdrop : ¬ c.dropsPass frameSeq th = true) :
    arrivalOrder (c.heldCoverage th) th.generation frameSeq ≠ .stale := by
  intro hstale
  apply hdrop
  unfold dropsPass
  cases hheld : c.heldCoverage th with
  | none => rw [hheld, arrivalOrder] at hstale; cases hstale
  | some e =>
    rw [hheld, arrivalOrder] at hstale
    simp [arrivalIsStale, hstale]

/-- The bookkeeping of an arrival changes the tile's coverage, if it is committed, and requests. -/
theorem noteArrival_spec (c : ClientCore) (frameSeq : UInt32) (th : TileHeader)
    (outcome : ArrivalOutcome) (nowUs : ℕ) :
    let c' := c.noteArrival frameSeq th outcome nowUs
    (c'.cdf53Coverage =
        if outcome.committed then c.cdf53Coverage.insert (th.tileX, th.tileY) outcome.entry
        else c.cdf53Coverage) ∧
      c'.newestReceivedLabel = c.newestReceivedLabel ∧ c'.parityDecoder = c.parityDecoder ∧
      c'.decoder = c.decoder := by
  dsimp only
  unfold noteArrival
  obtain ⟨h1, h2, h3, h4⟩ := queuePassNacks_spec
    (if outcome.committed then
      { c with cdf53Coverage := c.cdf53Coverage.insert (th.tileX, th.tileY) outcome.entry }
    else c) frameSeq th.tileX th.tileY nowUs outcome.nackPasses
  rw [h1, h2, h3, h4]
  split_ifs <;> exact ⟨rfl, rfl, rfl, rfl⟩

section Pass

variable {th : TileHeader} {frameSeq n : UInt32}

theorem mark_le_of_not_dropped (h : LabelInv base c) (hf : InWindow base frameSeq)
    (hdrop : ¬ c.dropsPass frameSeq th = true) {m : ℕ}
    (hm : mark base (th.tileX, th.tileY) c = some m) : m ≤ offset base frameSeq := by
  obtain ⟨e, hget, rfl⟩ := Option.map_eq_some_iff.1 hm
  have hns := arrivalOrder_ne_stale hdrop
  rw [h.heldCoverage_eq, hget, arrivalOrder] at hns
  exact offset_le_of_not_stale (h.held _ e hget).1 hf hns

/-- The bookkeeping of a pass that is not dropped: the invariant is kept, no mark moves back, and
a validated pass moves its tile's mark to its own label. -/
theorem noteArrival_forward (h : LabelInv base c) (hf : InWindow base frameSeq)
    (hn : c.newestReceivedLabel = some n) (hle : offset base frameSeq ≤ offset base n)
    (hdrop : ¬ c.dropsPass frameSeq th = true) (nowUs : ℕ) (ok : Bool)
    (presentPasses : Option UInt16) {outcome : ArrivalOutcome}
    (hout : outcome = applyCdf53Arrival (c.heldCoverage th) th.generation th.pass frameSeq nowUs ok
      presentPasses) :
    LabelInv base (c.noteArrival frameSeq th outcome nowUs) ∧
      (∀ pos m, mark base pos c = some m →
        ∃ m', mark base pos (c.noteArrival frameSeq th outcome nowUs) = some m' ∧ m ≤ m') ∧
      (ok = true → mark base (th.tileX, th.tileY) (c.noteArrival frameSeq th outcome nowUs) =
        some (offset base frameSeq)) := by
  obtain ⟨hok, hmask⟩ := applyCdf53Arrival_spec (arrivalOrder_ne_stale hdrop) th.pass nowUs ok
    presentPasses
  rw [← hout] at hok hmask
  obtain ⟨hcov, hnew, hpar, hdec⟩ := noteArrival_spec c frameSeq th outcome nowUs
  cases hcommit : outcome.committed with
  | false =>
    rw [hcommit, if_neg Bool.false_ne_true] at hcov
    refine ⟨h.congr hcov hnew (by rw [hpar]) hdec, ?_, ?_⟩
    · intro pos m hm
      exact ⟨m, by rw [mark, hcov]; exact hm, le_rfl⟩
    · intro htrue
      rw [hok htrue] at hcommit
      cases hcommit
  | true =>
    rw [hcommit, if_pos rfl] at hcov
    have hoff : offset base outcome.entry.frameSeq = offset base frameSeq := by
      rw [← offset_and_mask base outcome.entry.frameSeq, hmask hcommit, offset_and_mask]
    have hmark : mark base (th.tileX, th.tileY) (c.noteArrival frameSeq th outcome nowUs) =
        some (offset base frameSeq) := by
      rw [mark, hcov, Dict.get?_insert_self, Option.map_some, hoff]
    refine ⟨⟨by rw [hdec]; exact h.payloadMode, by rw [hpar]; exact h.pending,
      by rw [hnew]; exact h.newest, ?_⟩, ?_, fun _ => hmark⟩
    · intro pos e he
      rw [hcov, Dict.get?_insert] at he
      rw [hnew]
      split_ifs at he with hp
      · cases he
        exact ⟨by rw [InWindow, hoff]; exact hf, n, hn, by rw [hoff]; exact hle⟩
      · exact h.held pos e he
    · intro pos m hm
      by_cases hp : pos = (th.tileX, th.tileY)
      · subst hp
        exact ⟨_, hmark, mark_le_of_not_dropped h hf hdrop hm⟩
      · refine ⟨m, ?_, le_rfl⟩
        rw [mark, hcov, Dict.get?_insert_ne _ _ hp]
        exact hm

theorem cdf53Label_data (pass : Cdf53Pass) (generation : UInt8) (new : Bool) :
    cdf53Label pos (.tilePayload frameSeq th.tileX th.tileY generation (pass.data th.pass new)) =
      if (th.tileX, th.tileY) = pos then some frameSeq else none := by
  cases pass <;> rfl

/-- **A CDF 5/3 pass never moves its tile back.** -/
theorem deliverCdf53_forward (h : LabelInv base c) (hf : InWindow base frameSeq)
    (hn : c.newestReceivedLabel = some n) (hle : offset base frameSeq ≤ offset base n)
    (ws : UInt32) (payload : Bytes) (nowUs : ℕ) :
    Forward base pos c (c.deliverCdf53 frameSeq th ws payload nowUs) := by
  unfold deliverCdf53
  by_cases hdrop : c.dropsPass frameSeq th = true
  · rw [if_pos hdrop]
    exact of_same h rfl rfl
  · rw [if_neg hdrop]
    cases c.validatePass th payload with
    | error code =>
      obtain ⟨hinv, hmono, -⟩ := noteArrival_forward h hf hn hle hdrop nowUs false none rfl
      exact ⟨hinv.congr rfl rfl rfl rfl, hmono pos, Or.inl rfl⟩
    | ok pass =>
      obtain ⟨hinv, hmono, hmark⟩ :=
        noteArrival_forward h hf hn hle hdrop nowUs true pass.presentPasses rfl
      refine ⟨hinv.congr rfl rfl rfl rfl, hmono pos, ?_⟩
      by_cases hp : (th.tileX, th.tileY) = pos
      · subst hp
        refine Or.inr ⟨frameSeq, offset base frameSeq, ?_, hf,
          fun m hm => mark_le_of_not_dropped h hf hdrop hm, hmark rfl, le_rfl⟩
        rw [cdf53Labels, filterMap_cons, cdf53Label_data, if_pos rfl]
        rfl
      · refine Or.inl ?_
        rw [cdf53Labels, filterMap_cons, cdf53Label_data, if_neg hp]
        rfl

/-- A tile of any codec never moves its position back. -/
theorem deliverTile_forward (h : LabelInv base c) (hf : InWindow base frameSeq)
    (hn : c.newestReceivedLabel = some n) (hle : offset base frameSeq ≤ offset base n)
    (ws : UInt32) (payload : Bytes) (nowUs : ℕ) :
    Forward base pos c (c.deliverTile frameSeq th ws payload nowUs) := by
  unfold deliverTile
  cases th.codec with
  | cdf53 => exact deliverCdf53_forward h hf hn hle ws payload nowUs
  | h264 | skip => exact of_same h rfl rfl
  | solid =>
    simp only [deliverSolid]
    split <;> exact of_same h rfl rfl
  | palRle =>
    simp only [deliverPalRle]
    cases prevalidatePalRle payload c.paletteShadow with
    | error code => exact of_same (h.congr rfl rfl rfl rfl) rfl rfl
    | ok v =>
      simp only
      cases v.paletteUpsert with
      | none => exact of_same h rfl rfl
      | some upsert => exact of_same (h.congr rfl rfl rfl rfl) rfl rfl

end Pass

/-! ### One datagram -/

/-- The label of a tile datagram: its frame number without the flag. -/
def tileLabel (dh : DatagramHeader) : UInt32 := dh.frameSeq &&& ~~~tileDatagramFlag

/-- The newest label is not behind a received one, nor behind the newest before it. -/
theorem noteLabel_newest (hwin : ∀ n, c.newestReceivedLabel = some n → InWindow base n)
    (hf : InWindow base frameSeq) :
    ∃ n, (c.noteLabel frameSeq true).newestReceivedLabel = some n ∧
      InWindow base n ∧ offset base frameSeq ≤ offset base n ∧
      ∀ n0, c.newestReceivedLabel = some n0 → offset base n0 ≤ offset base n := by
  unfold noteLabel
  cases hold : c.newestReceivedLabel with
  | none => exact ⟨frameSeq, by simp, hf, le_rfl, nofun⟩
  | some n0 =>
    have hn0 := hwin n0 hold
    by_cases hnew : frameSeqIsNewer frameSeq n0 = true
    · refine ⟨frameSeq, by simp [hnew], hf, le_rfl, ?_⟩
      rintro _ ⟨rfl⟩
      exact ((frameSeqIsNewer_iff hf hn0).1 hnew).le
    · refine ⟨n0, by simp [hnew], hn0, ?_, ?_⟩
      · exact Nat.not_lt.1 fun hlt => hnew ((frameSeqIsNewer_iff hf hn0).2 hlt)
      · rintro _ ⟨rfl⟩
        exact le_rfl

/-- Noting a received label keeps the invariant, and the newest label is then not behind it. -/
theorem noteLabel_spec (h : LabelInv base c) (hf : InWindow base frameSeq) :
    LabelInv base (c.noteLabel frameSeq true) ∧
      ∃ n, (c.noteLabel frameSeq true).newestReceivedLabel = some n ∧
        offset base frameSeq ≤ offset base n := by
  obtain ⟨n, hn, hwin, hle, hold⟩ := noteLabel_newest h.newest hf
  refine ⟨⟨h.payloadMode, h.pending, ?_, ?_⟩, n, hn, hle⟩
  · intro n' hn'
    rw [hn] at hn'
    cases hn'
    exact hwin
  · intro pos e he
    obtain ⟨hwe, n0, hn0, hle0⟩ := h.held pos e he
    exact ⟨hwe, n, hn, hle0.trans (hold n0 hn0)⟩

theorem handleTile_forward (h : LabelInv base c) {dh : DatagramHeader}
    (hf : InWindow base (tileLabel dh)) (payload : Bytes) (nowUs : ℕ) :
    Forward base pos c (c.handleTile dh th payload nowUs .received) := by
  obtain ⟨c1, hc1, hcov⟩ : ∃ c1 : ClientCore,
      (if th.codec = .cdf53 then c else c.ackTransmission dh.wireSeq nowUs) = c1 ∧
        c1.cdf53Coverage = c.cdf53Coverage ∧ LabelInv base c1 := by
    refine ⟨_, rfl, ?_⟩
    split_ifs
    · exact ⟨rfl, h⟩
    · exact ⟨rfl, h.congr rfl rfl rfl rfl⟩
  obtain ⟨hinv, n, hn, hle⟩ := noteLabel_spec hcov.2 hf
  unfold handleTile
  rw [hc1]
  show Forward base pos c (if th.codec = .skip then _ else _)
  split_ifs
  · exact of_same hinv hcov.1 rfl
  · exact (deliverTile_forward hinv hf hn hle dh.wireSeq payload nowUs).of_coverage_eq hcov.1

/-- A tile datagram that is no control message and whose label lies in the window. -/
def TileTraffic (base : UInt32) (bytes : Bytes) : Prop :=
  isTileDatagram bytes = true ∧
    ∀ dh th payload, decodeTileDatagram bytes = .ok (dh, th, payload) →
      isSentinel th = false ∧ InWindow base (tileLabel dh)

variable {bytes : Bytes}

theorem handleSourceTile_forward (h : LabelInv base c) (hb : TileTraffic base bytes) (nowUs : ℕ) :
    Forward base pos c (c.handleSourceTile bytes nowUs .received) := by
  unfold handleSourceTile
  split_ifs
  · exact of_same h rfl rfl
  · cases hdec : decodeTileDatagram bytes with
    | error e => exact of_same h rfl rfl
    | ok decoded =>
      obtain ⟨dh, th, payload⟩ := decoded
      obtain ⟨hsent, hf⟩ := hb.2 dh th payload hdec
      simp only
      rw [if_neg (by rw [hsent]; exact Bool.false_ne_true)]
      split_ifs
      · exact of_same h rfl rfl
      · exact handleTile_forward h hf payload nowUs

/-- With no parity buffered, a source completes no group. -/
theorem recordSource_of_pending_eq_nil {d : ParityDecoder} (hd : d.pendingParities = [])
    (ws : UInt32) (bytes : Bytes) :
    (d.recordSource ws bytes).2 = none ∧ (d.recordSource ws bytes).1.pendingParities = [] := by
  have hstore : (d.store ws bytes).pendingParities = [] := by
    rw [ParityDecoder.store_pendingParities, hd]
  have hprobe : (d.store ws bytes).probe ws = none := by
    rw [ParityDecoder.probe, hstore]
    rfl
  rw [d.recordSource_of_probe_eq_none hprobe]
  exact ⟨rfl, hstore⟩

/-- **A tile datagram never moves a tile back.** -/
theorem handleDatagram_forward (h : LabelInv base c) (hb : TileTraffic base bytes) (nowUs : ℕ) :
    Forward base pos c (c.handleDatagram bytes nowUs) := by
  have hpayloads : Forward base pos c (c.handleDatagramPayloads bytes nowUs) := by
    unfold handleDatagramPayloads route
    rw [hb.1]
    simp only [Bool.not_true, Bool.false_eq_true, and_false, if_false]
    split_ifs
    · exact of_same h rfl rfl
    · exact of_same h rfl rfl
    · exact of_same h rfl rfl
    · obtain ⟨hnone, hpend⟩ := recordSource_of_pending_eq_nil h.pending (be32At bytes 8) bytes
      simp only [handleTileDatagram, hnone, nil_append]
      refine of_coverage_eq (handleSourceTile_forward ?_ hb nowUs) rfl
      exact h.congr rfl rfl (by rw [hpend, h.pending]) rfl
  have hmode : (c.handleDatagramPayloads bytes nowUs).1.decoder = none := hpayloads.inv.payloadMode
  rw [handleDatagram, decodeEvents, hmode]
  exact hpayloads

/-! ### Whole runs -/

/-- Along a run the labels handed up for a tile start no earlier than its mark and never go back. -/
theorem receive_forward (pos : UInt8 × UInt8) (traffic : List (Bytes × ℕ))
    (ht : ∀ x ∈ traffic, TileTraffic base x.1) (h : LabelInv base c) :
    (∀ label ∈ cdf53Labels pos (c.receive traffic).2, InWindow base label ∧
        ∀ m, mark base pos c = some m → m ≤ offset base label) ∧
      (cdf53Labels pos (c.receive traffic).2).Pairwise fun a b => offset base a ≤
          offset base b := by
  induction traffic generalizing c with
  | nil => exact ⟨nofun, List.Pairwise.nil⟩
  | cons x traffic ih =>
    obtain ⟨bytes, nowUs⟩ := x
    have hstep : Forward base pos c (c.handleDatagram bytes nowUs) :=
      handleDatagram_forward h (ht _ mem_cons_self) nowUs
    obtain ⟨hlater, hpair⟩ := ih (fun y hy => ht y (mem_cons_of_mem _ hy)) hstep.inv
    have hsplit : cdf53Labels pos (c.receive ((bytes, nowUs) :: traffic)).2 =
        cdf53Labels pos (c.handleDatagram bytes nowUs).2 ++
          cdf53Labels pos ((c.handleDatagram bytes nowUs).1.receive traffic).2 :=
      filterMap_append
    -- what comes later is not behind the mark before this datagram either
    have hafter : ∀ label ∈ cdf53Labels pos ((c.handleDatagram bytes nowUs).1.receive traffic).2,
        InWindow base label ∧ ∀ m, mark base pos c = some m → m ≤ offset base label := by
      intro label hl
      refine ⟨(hlater label hl).1, ?_⟩
      intro m hm
      obtain ⟨m', hm', hle⟩ := hstep.mark_le m hm
      exact hle.trans ((hlater label hl).2 m' hm')
    rw [hsplit]
    rcases hstep.labels with hnil | ⟨label, m', hone, hwin, hbefore, hm', hle⟩
    · rw [hnil, nil_append]
      exact ⟨hafter, hpair⟩
    · rw [hone]
      refine ⟨?_, pairwise_cons.2 ⟨?_, hpair⟩⟩
      · intro l hl
        rcases mem_cons.1 hl with rfl | hl
        · exact ⟨hwin, hbefore⟩
        · exact hafter l hl
      · intro l hl
        exact hle.trans ((hlater l hl).2 m' hm')

theorem labelInv_new (base : UInt32) (config : ClientConfig) :
    LabelInv base (new { config with tileDelivery := .payload }) := by
  refine ⟨rfl, rfl, nofun, ?_⟩
  intro pos e he
  have hnone : (new { config with tileDelivery := .payload }).cdf53Coverage.get? pos =
      none := Dict.get?_empty pos
  cases he

/-- **The labels of the CDF 5/3 passes handed up for a tile never go back**, for every sequence of
tile datagrams of any tiles and codecs, in any order, whose labels lie in a window of `2 ^ 29`. -/
theorem cdf53_labels_never_older (config : ClientConfig) (base : UInt32) (pos : UInt8 × UInt8)
    (traffic : List (Bytes × ℕ)) (ht : ∀ x ∈ traffic, TileTraffic base x.1) :
    (cdf53Labels pos ((ClientCore.new { config with tileDelivery := .payload }).receive
      traffic).2).Pairwise fun earlier later => frameSeqIsNewer earlier later = false := by
  obtain ⟨hwin, hpair⟩ := receive_forward pos traffic ht (labelInv_new base config)
  refine hpair.imp_of_mem ?_
  intro a b ha hb hle
  rw [Bool.eq_false_iff]
  intro hnewer
  have hlt := (frameSeqIsNewer_iff (hwin a ha).1 (hwin b hb).1).1 hnewer
  omega

/-- A pass with three empty planes, each one run of 128 zero bytes. -/
def emptyPass : Bytes := [0, 1, 255, 0, 1, 255, 0, 1, 255]

/-- A datagram of the tile at `(2, 3)`. -/
def tileDatagramAt (label : UInt32) (codec : Protocol.Codec) (payload : Bytes) : Bytes :=
  encodeTileDatagram
    { frameSeq := label ||| tileDatagramFlag, tileX := 2, tileY := 3, codec := codec,
      generation := 1, pass := 1, timestampUs := 0 } payload

theorem tileTraffic_of_decode {base : UInt32} {dh : DatagramHeader}
    {payload : Bytes} (hflag : isTileDatagram bytes = true)
    (hdec : decodeTileDatagram bytes = .ok (dh, th, payload)) (hsent : isSentinel th = false)
    (hwin : InWindow base (tileLabel dh)) : TileTraffic base bytes := by
  refine ⟨hflag, ?_⟩
  intro dh' th' payload' h
  rw [hdec] at h
  cases h
  exact ⟨hsent, hwin⟩

theorem tileTraffic_cdf53 : ∀ label ∈ [(7 : UInt32), 5],
    TileTraffic 0 (tileDatagramAt label .cdf53 emptyPass) := by
  intro label hl
  simp only [mem_cons, not_mem_nil, or_false] at hl
  rcases hl with rfl | rfl <;> exact tileTraffic_of_decode (by decide) rfl (by decide) (by decide)

/-- A pass labelled 7 is handed up, and with a late one labelled 5 behind it nothing goes back. -/
theorem cdf53_labels_never_older_late :
    cdf53Labels (2, 3) ((ClientCore.new { tileDelivery := .payload, cdf53Wire := true }).receive
        [(tileDatagramAt 7 .cdf53 emptyPass, 0)]).2 = [7] ∧
      (cdf53Labels (2, 3) ((ClientCore.new { tileDelivery := .payload, cdf53Wire := true }).receive
        ([7, 5].map fun label => (tileDatagramAt label .cdf53 emptyPass, 0))).2).Pairwise
        fun earlier later => frameSeqIsNewer earlier later = false := by
  refine ⟨by decide +kernel, ?_⟩
  refine cdf53_labels_never_older { cdf53Wire := true } 0 (2, 3) _ ?_
  intro x hx
  obtain ⟨label, hl, rfl⟩ := mem_map.1 hx
  exact tileTraffic_cdf53 label hl

/-- **Solid tiles are not ordered by the core**: labelled 5 and then 3, both are handed up. -/
theorem solid_label_goes_back :
    ((ClientCore.new { tileDelivery := .payload }).receive
        ([5, 3].map fun label => (tileDatagramAt label .solid [1, 2, 3, 4], 0))).2 =
      [.tilePayload 5 2 3 1 (.solid ⟨1, 2, 3, 4⟩), .tilePayload 3 2 3 1 (.solid ⟨1, 2, 3, 4⟩)] ∧
      frameSeqIsNewer 5 3 = true := by
  decide +kernel

end Ghostframe.Client
