import Ghostframe.Transport.RepairHandles

/-!
# Runs of the repair machinery

The ledger's side of the repair invariant, and what follows for whole runs.

* `orphaned_after_stale_request`: a request that a NACK repair has made stale still
  answers for the pass when the repair itself is declared lost, and the pass is left
  with nothing;
* `no_orphan_of_careful`: in every run without such a verdict no pass is left alone.
-/

namespace Ghostframe.Transport

open ReliableTileEmitter Content Dict List ReliablePath RetransmitCache Sound TransmissionLedger

variable {exc exc' : EmitKey → WireSeq → Prop} {p : ReliablePath} {e e' : ReliableTileEmitter}
  {l l' : TransmissionLedger}

/-! ### Records leave the ledger -/

/-- `l'` holds records of `l` only, with the content they had. -/
def Narrows (l l' : TransmissionLedger) : Prop :=
  ∀ ws r, l'.records.get? ws = some r → ∃ r0, l.records.get? ws = some r0 ∧
    r0.tx.content = r.tx.content

theorem Narrows.of_records (h : ∀ ws r, l'.records.get? ws = some r → l.records.get? ws = some r) :
    Narrows l l' := fun ws r hr => ⟨r, h ws r hr, rfl⟩

open Narrows

/-- The passes whose newest record has left may be without a handle now. -/
theorem Sound.ledger (h : Sound exc ⟨e, l⟩) (hnarrow : Narrows l l') {lost : WireSeq → Prop}
    (hlost : ∀ ws, l.Outstanding ws → l'.Outstanding ws ∨ lost ws) :
    Sound (fun k w => exc k w ∨ (lost w ∧ l.Outstanding w)) ⟨e, l'⟩ where
  books := h.books
  owned :=
    { recordedUsed := by
        intro ws r hr
        obtain ⟨r0, hr0, -⟩ := hnarrow ws r hr
        exact h.owned.recordedUsed ws r0 hr0
      sent := h.owned.sent
      recorded := by
        intro k c hk r hr
        obtain ⟨r0, hr0, hcontent⟩ := hnarrow _ r hr
        exact hcontent ▸ h.owned.recorded k c hk r0 hr0 }
  handles := by
    intro k c hk
    rcases h.handles k c hk with hx | hsent | hout | hq
    · exact .inl (.inl hx)
    · exact .inr (.inl hsent)
    · rcases hlost _ hout with hout' | hgone
      · exact .inr (.inr (.inl hout'))
      · exact .inl (.inr ⟨hgone, hout⟩)
    · exact .inr (.inr (.inr hq))

theorem Sound.ledger_keep (h : Sound exc ⟨e, l⟩) (hnarrow : Narrows l l')
    (hkeep : ∀ ws, l.Outstanding ws → l'.Outstanding ws) : Sound exc ⟨e, l'⟩ := by
  have hlost : ∀ ws, l.Outstanding ws → l'.Outstanding ws ∨ False := fun ws hws =>
    .inl (hkeep ws hws)
  have hledger := h.ledger hnarrow hlost
  exact hledger.restate fun k c _ hx => .inl (hx.resolve_right fun hf => hf.1)

theorem Sound.sameBook (h : Sound exc ⟨e, l⟩) (hb : l.SameBook l') : Sound exc ⟨e, l'⟩ := by
  refine h.ledger_keep (of_records fun ws r hr => hb.records ▸ hr) ?_
  intro ws hws
  unfold TransmissionLedger.Outstanding at hws ⊢
  rwa [hb.records]

/-- The record of one number leaves; no cached pass had it as its newest transmission. -/
theorem Sound.ledger_drop (h : Sound noExc ⟨e, l⟩) {ws : WireSeq}
    (hrecords : ∀ ws' r, l'.records.get? ws' = some r ↔
      l.records.get? ws' = some r ∧ ws' ≠ ws)
    (hno : ∀ k c, e.cache.get k = some c → l.Outstanding ws → c.latestWs ≠ ws) :
    Sound noExc ⟨e, l'⟩ := by
  have hnarrow : Narrows l l' := of_records fun ws' r hr => ((hrecords ws' r).1 hr).1
  have hlost : ∀ ws', l.Outstanding ws' → l'.Outstanding ws' ∨ ws' = ws := by
    rintro ws' ⟨r, hr⟩
    by_cases hws : ws' = ws
    · exact .inr hws
    · exact .inl ⟨r, (hrecords ws' r).2 ⟨hr, hws⟩⟩
  refine (h.ledger hnarrow hlost).discharge ?_
  rintro k c hk (hfalse | ⟨hws, hout⟩)
  · exact hfalse
  · exact hno k c hk (hws ▸ hout) hws

/-! ### Recording and departures -/

variable {cfg : EmitterConfig} (now : Instant)

/-- Recording below the capacity only adds records. -/
theorem foldl_recordOne (ds : List EmittedDatagram) :
    ∀ l : TransmissionLedger, l.records.size + ds.length ≤ l.capacity →
      (∀ ws r, (ds.foldl (recordOne now) l).records.get? ws = some r →
        l.records.get? ws = some r ∨ ∃ d ∈ ds, d.wireSeq = ws ∧ r.tx.content = d.content) ∧
      ∀ ws, l.Outstanding ws ∨ (∃ d ∈ ds, d.wireSeq = ws) →
        (ds.foldl (recordOne now) l).Outstanding ws := by
  induction ds with
  | nil =>
    intro l _
    refine ⟨fun ws r hr => .inl hr, ?_⟩
    rintro ws (hws | ⟨d, hd, -⟩)
    · exact hws
    · exact absurd hd not_mem_nil
  | cons d ds ih =>
    intro l hcap
    rw [length_cons] at hcap
    have hrec : (recordOne now l d).records = l.records.insert d.wireSeq
        (freshRecord now (toTransmission d)) :=
      l.record_records (by omega)
    have hsize : (recordOne now l d).records.size ≤ l.records.size + 1 := by
      rw [hrec, size, keys_insert, length_cons]
      exact Nat.succ_le_succ length_erase_le
    have hcap' : (recordOne now l d).capacity = l.capacity := l.record_capacity _ _ _
    obtain ⟨hfrom, hout⟩ := ih (recordOne now l d) (by omega)
    constructor
    · intro ws r hr
      rcases hfrom ws r hr with hr | ⟨d', hd', hrest⟩
      · rw [hrec, get?_insert] at hr
        split_ifs at hr with hws
        · cases hr
          exact .inr ⟨d, mem_cons_self, hws.symm, rfl⟩
        · exact .inl hr
      · exact .inr ⟨d', mem_cons_of_mem _ hd', hrest⟩
    · intro ws hws
      refine hout ws ?_
      by_cases hd : ws = d.wireSeq
      · refine .inl ⟨freshRecord now (toTransmission d), ?_⟩
        rw [hrec, hd, get?_insert_self]
      · rcases hws with ⟨r, hr⟩ | ⟨d', hd', hdws⟩
        · refine .inl ⟨r, ?_⟩
          rw [hrec, get?_insert_ne _ _ hd, hr]
        · rcases mem_cons.1 hd' with rfl | hd'
          · exact absurd hdws.symm hd
          · exact .inr ⟨d', hd', hdws⟩

theorem Sound.recordTransmissions (h : Sound noExc p) (now : Instant)
    (hcap : p.ledger.len + p.emitter.transmissions.length ≤ p.ledger.capacity) :
    Sound noExc (p.recordTransmissions now) := by
  obtain ⟨hfrom, hout⟩ := foldl_recordOne now p.emitter.transmissions p.ledger hcap
  refine ⟨{ h.books with sentUsed := nofun }, ⟨?_, nofun, ?_⟩, ?_⟩
  · intro ws r hr
    rcases hfrom ws r hr with hr | ⟨d, hd, rfl, -⟩
    · exact h.owned.recordedUsed ws r hr
    · exact h.books.sentUsed d hd
  · intro k c hk r hr
    rcases hfrom _ r hr with hr | ⟨d, hd, hws, hcontent⟩
    · exact h.owned.recorded k c hk r hr
    · exact hcontent.trans (h.owned.sent k c hk d hd hws)
  · intro k c hk
    rcases h.handles k c hk with hx | hsent | houts | hq
    · exact .inl hx
    · exact .inr (.inr (.inl (hout _ (.inr hsent))))
    · exact .inr (.inr (.inl (hout _ (.inl houts))))
    · exact .inr (.inr (.inr hq))

theorem Sound.stampDeparture (h : Sound noExc p) (ws : WireSeq) (at_ : Instant) :
    Sound noExc (p.stampDeparture ws at_) := by
  have he : Sound noExc ⟨p.emitter.onDeparted at_, p.ledger⟩ :=
    h.shrink ⟨fun _ _ hk => hk, rfl, rfl⟩ rfl rfl rfl rfl rfl
  rcases p.ledger.markDeparted_spec ws at_ (p.emitter.emitUs64 at_) with
    ⟨-, hsame⟩ | ⟨-, r, hr, -, hrec, -⟩
  · unfold ReliablePath.stampDeparture
    rw [hsame]
    exact he
  · refine he.ledger_keep ?_ ?_
    · intro ws' r' hr'
      rw [hrec, get?_insert] at hr'
      split_ifs at hr' with hws
      · cases hr'
        exact ⟨r, hws ▸ hr, rfl⟩
      · exact ⟨r', hr', rfl⟩
    · rintro ws' ⟨r', hr'⟩
      by_cases hws : ws' = ws
      · exact ⟨_, by rw [hrec, hws, get?_insert_self]⟩
      · exact ⟨r', by rw [hrec, get?_insert_ne _ _ hws, hr']⟩

/-! ### Verdicts -/

theorem foldl_verdictOne (cfg : EmitterConfig) (vs : List LostTransmission) :
    ∀ (e : ReliableTileEmitter) (out : Outcome),
      (vs.foldl (verdictOne cfg) (e, out)).1 =
        requestAll cfg .loss e (vs.map fun v => (v.2.1.content, v.1)) := by
  induction vs with
  | nil =>
    intro e out
    rfl
  | cons v vs ih =>
    intro e out
    exact ih _ _

theorem foldl_deferredOne (cfg : EmitterConfig) (ds : List (Content × WireSeq)) :
    ∀ (e : ReliableTileEmitter) (out : Outcome),
      (ds.foldl (deferredOne cfg) (e, out)).1 = requestAll cfg .probe e ds := by
  induction ds with
  | nil =>
    intro e out
    rfl
  | cons d ds ih =>
    intro e out
    exact ih _ _

/-- The ledger's verdicts take records away, and each names the pass whose record it was. -/
theorem Sound.judged (h : Sound noExc ⟨e, l⟩) {vs : List LostTransmission}
    (hv : l.Verdicts l' vs) :
    Sound (fun k w => (tile k, w) ∈ vs.map fun v => (v.2.1.content, v.1)) ⟨e, l'⟩ := by
  have hnarrow : Narrows l l' := of_records fun ws r hr => ((hv.records ws r).1 hr).1
  have hlost : ∀ ws, l.Outstanding ws →
      l'.Outstanding ws ∨ ws ∈ verdictSeqs vs := by
    rintro ws ⟨r, hr⟩
    by_cases hws : ws ∈ verdictSeqs vs
    · exact .inr hws
    · exact .inl ⟨r, (hv.records ws r).2 ⟨hr, hws⟩⟩
  refine (h.ledger hnarrow hlost).restate ?_
  rintro k c hk (hfalse | ⟨hmem, -⟩)
  · exact hfalse.elim
  · obtain ⟨v, hvs, hws⟩ := mem_map.1 hmem
    obtain ⟨r, hr, htx⟩ := hv.found v hvs
    rw [hws] at hr
    have hcontent : v.2.1.content = .tile k := htx ▸ h.owned.recorded k c hk r hr
    exact .inl (mem_map.2 ⟨v, hvs, by rw [hcontent, hws]⟩)

/-- No verdict of this turn finds a stale request in its way. -/
def FreshVerdicts (p : ReliablePath) (now : Instant) : Prop :=
  ∀ v ∈ p.verdicts now, ∀ k c, p.emitter.cache.get k = some c → c.latestWs = v.1 →
    NoStaleRequest p.emitter k c.latestWs

theorem Sound.detect (hrto : cfg.noRto = false) (h : Sound noExc p) (now : Instant)
    (hfresh : FreshVerdicts p now) : Sound noExc (p.detect cfg now).1 := by
  have hv := (p.ledger.detectLossesAt_verdicts now (timeThreshold p.emitter.rtt)).1
  have hjudged : Sound noExc
      ⟨Transport.requestAll cfg .loss p.emitter
        ((p.verdicts now).map fun v => (v.2.1.content, v.1)),
        (p.ledger.detectLossesAt now (timeThreshold p.emitter.rtt)).1⟩ := by
    refine requestAll hrto .loss _ (h.judged hv) ?_
    intro k c hk hmem
    obtain ⟨v, hvs, heq⟩ := mem_map.1 hmem
    exact hfresh v hvs k c hk (Prod.mk.inj heq).2.symm
  have hdue := requestAll hrto .probe _ (hjudged.takeDueDeferred now probeCount)
    fun k c hk hmem => noStale_of_taken hjudged now probeCount hk hmem
  unfold ReliablePath.detect resendDeferred
  simp only [foldl_verdictOne, foldl_deferredOne]
  exact hdue

/-! ### The tail probe -/

theorem requestRetransmit_contentGone {content : Content} {ws : WireSeq} {cause : RetxCause}
    (h : (e.requestRetransmit cfg content ws cause).2 = .contentGone) :
    e.entryOf content = none := by
  unfold requestRetransmit at h
  split_ifs at h
  unfold classifyRetx at h
  cases hentry : e.entryOf content with
  | none => rfl
  | some c =>
    rw [hentry] at h
    simp only at h
    split_ifs at h

/-- `l'` is `l`, or `l` without the record of `ws`. -/
def DropsOnly (l l' : TransmissionLedger) (ws : WireSeq) : Prop :=
  l' = l ∨ ∀ ws' r, l'.records.get? ws' = some r ↔ l.records.get? ws' = some r ∧ ws' ≠ ws

theorem forgetGone_spec (p : ReliablePath) (out : Outcome) (ws : WireSeq) :
    (p.forgetGone out ws).1.emitter = p.emitter ∧
      DropsOnly p.ledger (p.forgetGone out ws).1.ledger ws := by
  have hledger : (p.forgetGone out ws).1 = ⟨p.emitter, (p.ledger.forgetOutstanding ws).1⟩ := by
    unfold forgetGone
    simp only
    split_ifs <;> rfl
  rw [hledger]
  refine ⟨rfl, ?_⟩
  rcases p.ledger.forgetOutstanding_spec ws with ⟨-, hsame⟩ | ⟨-, hforgets⟩
  · exact .inl hsame
  · refine .inr fun ws' r => ?_
    show (p.ledger.forgetOutstanding ws).1.records.get? ws' = some r ↔ _
    rw [hforgets.records, get?_erase]
    by_cases hws : ws' = ws
    · simp [hws]
    · simp [hws]

theorem loseGone_spec (p : ReliablePath) (out : Outcome) (ws : WireSeq) :
    (p.loseGone out ws).1.emitter = p.emitter ∧
      DropsOnly p.ledger (p.loseGone out ws).1.ledger ws := by
  have hledger : (p.loseGone out ws).1 = ⟨p.emitter, (p.ledger.declareLostByPto ws).1⟩ := by
    unfold loseGone
    simp only
    split <;> rfl
  rw [hledger]
  refine ⟨rfl, ?_⟩
  rcases p.ledger.declareLostByPto_verdicts ws with ⟨-, hl⟩ | ⟨tx, -, hv⟩
  · exact .inl hl
  · refine .inr fun ws' r => ?_
    simpa [verdictSeqs] using hv.records ws' r

theorem dropGone_spec (p : ReliablePath) (out : Outcome) (ws : WireSeq) (tx : Transmission) :
    (p.dropGone out ws tx).1.emitter = p.emitter ∧
      DropsOnly p.ledger (p.dropGone out ws tx).1.ledger ws := by
  unfold dropGone
  split
  · exact forgetGone_spec p out ws
  · exact loseGone_spec p out ws

/-- One candidate: its request may join a queue; if its content is gone, no cached pass had it as
its newest transmission. -/
theorem Sound.probeOne (cfg : EmitterConfig) (h : Sound noExc p) (out : Outcome) {ws : WireSeq}
    {tx : Transmission}
    (hcand : ∀ r, p.ledger.records.get? ws = some r → r.tx.content = tx.content) :
    Sound noExc (p.probeOne cfg out ws tx).1 ∧
      ∀ ws' r, (p.probeOne cfg out ws tx).1.ledger.records.get? ws' = some r →
        p.ledger.records.get? ws' = some r := by
  have hreq : Sound noExc
      ⟨(p.emitter.requestRetransmit cfg tx.content ws .probe).1, p.ledger⟩ :=
    h.request tx.content ws .probe
  have hcache := (requestRetransmit_rests cfg p.emitter tx.content ws .probe).1
  unfold ReliablePath.probeOne
  simp only
  split_ifs with hgone
  · have hnone := requestRetransmit_contentGone hgone
    obtain ⟨hemitter, hledger⟩ := dropGone_spec
      ⟨(p.emitter.requestRetransmit cfg tx.content ws .probe).1, p.ledger⟩ out ws tx
    generalize dropGone
      ⟨(p.emitter.requestRetransmit cfg tx.content ws .probe).1, p.ledger⟩ out ws tx = d
      at hemitter hledger
    obtain ⟨⟨de, dl⟩, dout, dremoved⟩ := d
    cases hemitter
    rcases hledger with hsame | hdrop
    · cases hsame
      exact ⟨hreq, fun _ _ hr => hr⟩
    · refine ⟨hreq.ledger_drop hdrop ?_, fun ws' r hr => ((hdrop ws' r).1 hr).1⟩
      rintro k c hk ⟨r, hr⟩ rfl
      -- the record belongs to the pass, which is cached, so its content is not gone
      rw [hcache] at hk
      have hcontent := (h.owned.recorded k c hk r hr).symm.trans (hcand r hr)
      rw [← hcontent, entryOf_tile, hk] at hnone
      cases hnone
  · exact ⟨hreq, fun _ _ hr => hr⟩

theorem Sound.probeRound (cfg : EmitterConfig) (cands : List (WireSeq × Transmission)) :
    ∀ {p : ReliablePath} (out : Outcome) (removed : Bool), Sound noExc p →
      (∀ x ∈ cands, ∀ r, p.ledger.records.get? x.1 = some r → r.tx.content = x.2.content) →
      Sound noExc (ReliablePath.probeRound cfg cands p out removed).1 := by
  induction cands with
  | nil =>
    intro p out removed h _
    exact h
  | cons x rest ih =>
    intro p out removed h hcand
    unfold ReliablePath.probeRound
    split_ifs
    · exact h
    · obtain ⟨hsound, hsub⟩ := h.probeOne cfg out (hcand x mem_cons_self)
      refine ih _ _ hsound fun y hy r hr => ?_
      exact hcand y (mem_cons_of_mem _ hy) r (hsub _ _ hr)

/-- Whatever a scan returns is on the books. -/
theorem scanWalk_found (l : TransmissionLedger) (n maxScan : ℕ) (order : List WireSeq) :
    ∀ (cursor liveSeen deadSeen : ℕ) (out : List (WireSeq × Transmission)),
      (∀ x ∈ out, ∃ r, l.records.get? x.1 = some r ∧ r.tx = x.2) →
      ∀ x ∈ (l.scanWalk n maxScan order cursor liveSeen deadSeen out).2,
        ∃ r, l.records.get? x.1 = some r ∧ r.tx = x.2 := by
  induction order with
  | nil =>
    intro cursor liveSeen deadSeen out hout
    exact hout
  | cons ws rest ih =>
    intro cursor liveSeen deadSeen out hout
    unfold scanWalk
    split_ifs
    · exact hout
    · cases hr : l.records.get? ws with
      | none => exact ih _ _ _ out hout
      | some r =>
        simp only
        split_ifs
        · refine ih _ _ _ _ fun x hx => ?_
          rcases mem_append.1 hx with hx | hx
          · exact hout x hx
          · rw [mem_singleton.1 hx]
            exact ⟨r, hr, rfl⟩
        · exact ih _ _ _ out hout

theorem Sound.probeRounds (n : ℕ) :
    ∀ {p : ReliablePath} (cursor : ℕ) (out : Outcome), Sound noExc p →
      Sound noExc (ReliablePath.probeRounds cfg n p cursor out).1 := by
  induction n with
  | zero =>
    intro p cursor out h
    exact h
  | succ n ih =>
    intro p cursor out h
    have hscan := h.sameBook (p.ledger.scanOutstanding_sameBook cursor probeScan probeScan)
    have hround := probeRound cfg
      (p.ledger.scanOutstanding cursor probeScan probeScan).2.2 out false hscan (by
        intro x hx r hr
        obtain ⟨r', hr', htx⟩ := scanWalk_found _ _ _ _ _ _ _ [] nofun x hx
        replace hr : (if cursor = 0 then p.ledger.trimDeparted else p.ledger).records.get? x.1 =
          some r := hr
        rw [hr] at hr'
        cases hr'
        rw [htx])
    unfold ReliablePath.probeRounds
    simp only
    split_ifs
    · exact hscan
    · exact hround
    · exact ih _ _ hround

theorem Sound.probe (h : Sound noExc p) (now : Instant) : Sound noExc (p.probe cfg now).1 := by
  unfold ReliablePath.probe
  split_ifs
  · exact h
  · refine probeRounds _ _ _ ?_
    exact h.shrink ⟨fun _ _ hk => hk, rfl, rfl⟩ rfl rfl rfl rfl rfl

/-! ### Acknowledgements -/

/-- A resolved number takes its record away, and names the pass that is released for it. -/
theorem Sound.resolveOne {s : ReliablePath × List Content} (minRtt : Duration)
    (h : Sound (fun k _ => tile k ∈ s.2) s.1) (ws : WireSeq) :
    Sound (fun k _ => tile k ∈ (ReliablePath.resolveOne now minRtt s ws).2)
      (ReliablePath.resolveOne now minRtt s ws).1 := by
  obtain ⟨⟨e, l⟩, contents⟩ := s
  have hacked : Sound (fun k _ => tile k ∈ contents) ⟨e.noteAck now, l⟩ :=
    h.shrink ⟨fun _ _ hk => hk, rfl, rfl⟩ rfl rfl rfl rfl rfl
  unfold ReliablePath.resolveOne resolveAt
  cases hrec : l.records.get? ws with
  | some r =>
    -- the content of the record is among those the ack resolves
    have hrecords := l.resolveLive_records ws r (some (now, minRtt))
    have hnarrow : Narrows l (l.resolveLive ws r (some (now, minRtt))) := by
      refine of_records fun ws' r' hr' => ?_
      rw [hrecords] at hr'
      exact (get?_of_get?_erase hr').2
    have hlost : ∀ ws', l.Outstanding ws' →
        (l.resolveLive ws r (some (now, minRtt))).Outstanding ws' ∨ ws' = ws := by
      rintro ws' ⟨r', hr'⟩
      by_cases hws : ws' = ws
      · exact .inr hws
      · exact .inl ⟨r', by rw [hrecords, get?_erase_ne _ hws, hr']⟩
    refine (hacked.ledger hnarrow hlost).restate ?_
    rintro k c hk (hmem | ⟨hws, -⟩)
    · exact .inl (mem_append_left _ hmem)
    · have hcontent : r.tx.content = .tile k := h.owned.recorded k c hk r (hws ▸ hrec)
      exact .inl (mem_append_right _ (mem_singleton.2 hcontent.symm))
  | none =>
    cases htomb : l.tombstones.get? ws with
    | some t =>
      -- a late ack finds a tombstone, and no record goes
      have hrecords := l.resolveLate_records ws t (some (now, minRtt))
      have hkept : Sound (fun k _ => tile k ∈ contents)
          ⟨e.noteAck now, (l.resolveLate ws t (some (now, minRtt))).1⟩ := by
        refine hacked.ledger_keep (of_records fun ws' r hr => hrecords ▸ hr) ?_
        intro ws' hws
        unfold TransmissionLedger.Outstanding at hws ⊢
        rwa [hrecords]
      exact hkept.restate fun k c _ hmem => .inl (mem_append_left _ hmem)
    | none => exact h.ledger_keep (of_records fun _ _ hr => hr) fun _ hws => hws

theorem Sound.resolveAll (minRtt : Duration) (wireSeqs : List WireSeq) :
    ∀ {s : ReliablePath × List Content}, Sound (fun k _ => tile k ∈ s.2) s.1 →
      Sound (fun k _ => tile k ∈
          (wireSeqs.foldl (ReliablePath.resolveOne now minRtt) s).2)
        (wireSeqs.foldl (ReliablePath.resolveOne now minRtt) s).1 := by
  induction wireSeqs with
  | nil =>
    intro s h
    exact h
  | cons ws rest ih =>
    intro s h
    exact ih (h.resolveOne now minRtt ws)

/-- A pass that is still cached after the acknowledged ones have left was not among them. -/
theorem foldl_remove_get (keys : List EmitKey) :
    ∀ {c : RetransmitCache} {k : EmitKey} {entry : CacheEntry},
      (keys.foldl remove c).get k = some entry →
        c.get k = some entry ∧ k ∉ keys := by
  induction keys with
  | nil =>
    intro c k entry h
    exact ⟨h, not_mem_nil⟩
  | cons key keys ih =>
    intro c k entry h
    obtain ⟨hget, hnot⟩ := ih h
    rw [get_remove] at hget
    split_ifs at hget with hk
    exact ⟨hget, by simp [hk, hnot]⟩

theorem Sound.releaseAcked {contents : List Content}
    (h : Sound (fun k _ => tile k ∈ contents) p) :
    Sound noExc (p.releaseAcked contents) := by
  have hget : ∀ k c, (p.emitter.onAck (contents.filterMap tile?)).cache.get k = some c →
      p.emitter.cache.get k = some c ∧ k ∉ contents.filterMap tile? :=
    fun k c hk => foldl_remove_get _ hk
  have hacked : Sound noExc ⟨p.emitter.onAck (contents.filterMap tile?), p.ledger⟩ := by
    refine (h.shrink ⟨fun k c hk => (hget k c hk).1, rfl, rfl⟩ rfl rfl rfl rfl rfl).discharge ?_
    intro k c hk hmem
    exact (hget k c hk).2 (mem_filterMap.2 ⟨_, hmem, rfl⟩)
  -- fragments and padding live in caches of their own
  have hfold : ∀ (cs : List Content) (e : ReliableTileEmitter), Sound noExc ⟨e, p.ledger⟩ →
      Sound noExc ⟨cs.foldl releaseH264 e, p.ledger⟩ := by
    intro cs
    induction cs with
    | nil =>
      intro e he
      exact he
    | cons content cs ih =>
      intro e he
      refine ih _ ?_
      cases content with
      | tile key => exact he
      | h264Frag frameSeq fragIdx =>
        exact he.shrink ⟨fun _ _ hk => hk, rfl, rfl⟩ rfl rfl rfl rfl rfl
      | pad ws => exact he.shrink ⟨fun _ _ hk => hk, rfl, rfl⟩ rfl rfl rfl rfl rfl
  exact hfold contents _ hacked

theorem Sound.dispatchAck (h : Sound noExc p) (wireSeqs : List WireSeq) (now : Instant) :
    Sound noExc (p.dispatchAck wireSeqs now) := by
  refine Sound.releaseAcked (Sound.resolveAll now _ wireSeqs ?_)
  exact h.restate fun _ _ _ hfalse => hfalse.elim

/-! ### Cancelled tiles -/

theorem cancelKey_get {c : RetransmitCache} {key k : EmitKey} {entry : CacheEntry}
    (h : (c.cancelKey key).get k = some entry) : c.get k = some entry := by
  unfold cancelKey at h
  split at h
  · simpa [RetransmitCache.get] using h
  · simp only [RetransmitCache.get, RetransmitCache.forgetContent_entries,
      dropEntry] at h
    exact (Dict.get?_of_get?_erase h).2

theorem cancelForTile_get {c : RetransmitCache} {tile : UInt8 × UInt8} {k : EmitKey}
    {entry : CacheEntry} (h : (c.cancelForTile tile).get k = some entry) :
    c.get k = some entry := by
  have hfold : ∀ (keys : List EmitKey) (c : RetransmitCache),
      (keys.foldl cancelKey c).get k = some entry → c.get k = some entry := by
    intro keys
    induction keys with
    | nil =>
      intro c hc
      exact hc
    | cons key keys ih =>
      intro c hc
      exact cancelKey_get (ih _ hc)
  unfold RetransmitCache.cancelForTile at h
  split at h
  · exact h
  · have hc := hfold _ _ h
    exact hc

/-! ### Runs -/

/-- What a run has to keep to at one event: numbers do not wrap, the ledger has room for what is
recorded, a pass has room for its number, and no verdict finds a stale request in its way. -/
def Careful (p : ReliablePath) : PathOp → Prop
  | .submitOne _ source _ _ _ => Room p.emitter 1 ∧ 12 ≤ source.length
  | .submitH264Fragment _ _ => Room p.emitter 1
  | .detect now => FreshVerdicts p now
  | .tickBudgeted _ _ _ =>
    Room p.emitter (p.emitter.pendingLoss.length + p.emitter.pendingNacks.length)
  | .recordTransmissions _ =>
    p.ledger.len + p.emitter.transmissions.length ≤ p.ledger.capacity
  | _ => True

theorem sound_step (hrto : cfg.noRto = false) (p : ReliablePath) (op : PathOp) (h : Sound noExc p)
    (hcare : Careful p op) : Sound noExc (p.step cfg op) := by
  cases op with
  | submitOne key source queuedAt probe now =>
    obtain ⟨hroom, hlong⟩ := hcare
    have hs := submitOneAs_sends p.emitter key source queuedAt probe now false hlong
    exact (h.sends (n := 0) hs hroom).discharge fun k c _ hx => hx.2
  | submitH264Fragment frag now =>
    have hs := submitH264Fragment_sends p.emitter frag now
    exact (h.sends (n := 0) hs hcare).discharge fun k c _ hx => hx.2
  | onNack entries => exact onNack entries h
  | detect now => exact h.detect hrto now hcare
  | probe now => exact h.probe now
  | tickBudgeted now maxRetransmits maxBytes =>
    exact h.tickBudgeted now maxRetransmits maxBytes hcare
  | recordTransmissions now => exact h.recordTransmissions now hcare
  | stampDeparture ws at_ => exact h.stampDeparture ws at_
  | dispatchAck wireSeqs now => exact h.dispatchAck wireSeqs now
  | onSample rtt => exact h.shrink ⟨fun _ _ hk => hk, rfl, rfl⟩ rfl rfl rfl rfl rfl
  | cancelForTile tile =>
    exact h.shrink ⟨fun _ _ hk => cancelForTile_get hk, rfl, rfl⟩ rfl rfl rfl rfl rfl

/-! ### The condition and the handles can be evaluated -/

instance (e : ReliableTileEmitter) (key : EmitKey) (w : WireSeq) :
    Decidable (NoStaleRequest e key w) :=
  inferInstanceAs (Decidable (∀ r ∈ e.pendingLoss, _))

/-- Only the keys of the cache have to be looked at. -/
theorem freshVerdicts_iff (p : ReliablePath) (now : Instant) :
    FreshVerdicts p now ↔ ∀ v ∈ p.verdicts now, ∀ k ∈ p.emitter.cache.entries.keys,
      ∀ c ∈ p.emitter.cache.get k, c.latestWs = v.1 → NoStaleRequest p.emitter k c.latestWs := by
  constructor
  · intro h v hv k _ c hc
    exact h v hv k c hc
  · intro h v hv k c hc
    exact h v hv k (mem_keys_of_get? hc) c hc

instance (p : ReliablePath) (now : Instant) : Decidable (FreshVerdicts p now) :=
  decidable_of_iff' _ (freshVerdicts_iff p now)

instance (e : ReliableTileEmitter) (n : ℕ) : Decidable (Room e n) :=
  inferInstanceAs (Decidable (_ < _))

instance (p : ReliablePath) : ∀ op, Decidable (Careful p op)
  | .submitOne .. => inferInstanceAs (Decidable (_ ∧ _))
  | .submitH264Fragment .. => inferInstanceAs (Decidable (Room _ _))
  | .detect _ => inferInstanceAs (Decidable (FreshVerdicts _ _))
  | .tickBudgeted .. => inferInstanceAs (Decidable (Room _ _))
  | .recordTransmissions _ => inferInstanceAs (Decidable (_ ≤ _))
  | .onNack _ | .probe _ | .stampDeparture .. | .dispatchAck .. | .onSample _
  | .cancelForTile _ => .isTrue trivial

instance (l : TransmissionLedger) (ws : WireSeq) : Decidable (l.Outstanding ws) :=
  decidable_of_iff ((l.records.get? ws).isSome = true) Option.isSome_iff_exists

instance (e : ReliableTileEmitter) (key : EmitKey) (w : WireSeq) :
    Decidable (QueueHandle e key w) :=
  inferInstanceAs (Decidable (_ ∨ _ ∨ _))

instance (p : ReliablePath) (key : EmitKey) (w : WireSeq) : Decidable (p.HasHandle key w) :=
  inferInstanceAs (Decidable (_ ∨ _ ∨ _))

/-! ### Every careful run, and one that is not -/

/-- **No orphan without a stale request.** In every run from an empty emitter and ledger whose
events all keep to `Careful`, every cached pass has a live repair handle in the state reached. -/
theorem no_orphan_of_careful {cfg : EmitterConfig} (hrto : cfg.noRto = false) (now : Instant)
    (capacity : ℕ) (ops : List PathOp)
    (hcare : Along Careful (ReliablePath.step cfg) (.new now capacity) ops) :
    (run (ReliablePath.step cfg) (.new now capacity) ops).NoOrphan := by
  have hsound : Sound noExc (run (step cfg) (.new now capacity) ops) :=
    hcare.inv (fun p op h hc => sound_step hrto p op h hc) (sound_new now capacity)
  intro key c hk
  exact (hsound.handles key c hk).resolve_left id

/-- The first pass is submitted, recorded, and lost to a later acknowledgement. -/
def lossRun : List PathOp :=
  ([0, 1, 2, 3].map fun n => .submitOne ⟨1, n, 0, 0⟩ (List.replicate 12 n) 0 none 0) ++
    .recordTransmissions 0 :: ([0, 1, 2, 3].map fun ws => .stampDeparture ws 1) ++
    [.dispatchAck [3] 2, .detect 2]

theorem no_orphan_of_careful_lossRun :
    Along Careful (ReliablePath.step {}) (.new 0 100) lossRun ∧
      (run (ReliablePath.step {}) (.new 0 100) lossRun).NoOrphan := by
  have hcare : Along Careful (step {}) (.new 0 100) lossRun := by
    decide +kernel
  exact ⟨hcare, no_orphan_of_careful rfl 0 100 lossRun hcare⟩

/-- After that its NACK repair goes out while the request of the loss path still waits, and the
repair is lost too. -/
def staleRun : List PathOp :=
  lossRun ++ [.onNack [⟨1, 0, 0, 0⟩], .tickBudgeted 3 1 1000] ++
    ([4, 5, 6].map fun n => .submitOne ⟨1, n, 0, 0⟩ (List.replicate 12 n) 0 none 3) ++
    .recordTransmissions 3 :: ([4, 5, 6, 7].map fun ws => .stampDeparture ws 4) ++
    [.dispatchAck [7] 5, .detect 5]

/-- The verdict on the repair is answered "already queued" by the request for the original, which
is dropped as stale when its turn comes: the pass stays cached and nothing brings it back. -/
theorem orphaned_after_stale_request :
    ¬(run (ReliablePath.step {}) (.new 0 100) staleRun).NoOrphan := by
  have hcached : ((run (step {}) (.new 0 100) staleRun).emitter.cache.get
      ⟨1, 0, 0, 0⟩).map CacheEntry.latestWs = some 4 := by
    decide +kernel
  have hnone : ¬(run (step {}) (.new 0 100) staleRun).HasHandle ⟨1, 0, 0, 0⟩ 4 := by
    decide +kernel
  intro h
  obtain ⟨c, hc, hws⟩ := Option.map_eq_some_iff.1 hcached
  exact hnone (hws ▸ h _ c hc)

end Ghostframe.Transport
