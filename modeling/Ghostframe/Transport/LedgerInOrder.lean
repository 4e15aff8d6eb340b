import Ghostframe.Transport.LedgerRun

/-!
# Queueing alone never causes a verdict

A transmission is judged only against the newest acknowledged departure. When
acknowledgements come in departure order, that reference never passes an
outstanding departure, so there is nothing to judge, however long the queue and
whatever the clocks and the learned thresholds say.

* `Ordered`: the reference is at most the departure index of everything
  outstanding (`ordered_step`: every operation keeps it);
* `detectLossesAt_eq_nil_of_inOrder`: no run in departure order gets a verdict.
-/

namespace Ghostframe.Transport

namespace TransmissionLedger

variable (l : TransmissionLedger)

/-- The departure index of an outstanding departed transmission. -/
def departedIdx (ws : WireSeq) : Option ℕ :=
  match l.records.get? ws with
  | some r => if r.departed.isSome then r.tx.depIdx else none
  | none => none

/-- The departure index an acknowledgement of `ws` may move the reference to: that of a departed
transmission, outstanding or already declared lost, that is not padding. -/
def ackedIdx (ws : WireSeq) : Option ℕ :=
  match l.records.get? ws with
  | some r => referenceIdx r.tx r.departed
  | none =>
    match l.tombstones.get? ws with
    | some t => referenceIdx t.tx t.departed
    | none => none

/-- A transmission other than `ws` that departed before index `i` is still outstanding. -/
def EarlierOutstanding (ws : WireSeq) (i : ℕ) : Prop :=
  ∃ ws' ∈ l.records.keys, ws' ≠ ws ∧ (l.departedIdx ws').any (fun j => decide (j < i)) = true

instance (l : TransmissionLedger) (ws : WireSeq) (i : ℕ) : Decidable (l.EarlierOutstanding ws i) :=
  inferInstanceAs (Decidable (∃ ws' ∈ l.records.keys, _))

end TransmissionLedger

open TransmissionLedger

/-- The number an operation acknowledges. -/
def LedgerOp.ackedSeq : LedgerOp → Option WireSeq
  | .resolveAt ws _ => some ws
  | _ => none

/-- No departed transmission is acknowledged while an earlier one is outstanding. -/
def LedgerOp.InOrder (l : TransmissionLedger) (op : LedgerOp) : Prop :=
  ∀ ws ∈ op.ackedSeq, ∀ i ∈ l.ackedIdx ws, ¬ l.EarlierOutstanding ws i

instance (l : TransmissionLedger) (op : LedgerOp) : Decidable (op.InOrder l) :=
  decidable_of_iff
    (op.ackedSeq.all (fun ws =>
      (l.ackedIdx ws).all fun i => decide ¬ l.EarlierOutstanding ws i) = true)
    (by simp only [LedgerOp.InOrder, Option.all_eq_true, decide_eq_true_eq, Option.mem_def])

/-- One operation on the ledger, its reports forgotten. -/
def ledgerStep (l : TransmissionLedger) (op : LedgerOp) : TransmissionLedger := (op.apply l).1

/-- The reference departure is older than everything outstanding. -/
structure Ordered (l : TransmissionLedger) : Prop where
  outstanding : ∀ ws r at_, l.records.get? ws = some r → r.departed = some at_ →
    ∃ j, r.tx.depIdx = some j ∧ j < l.nextDepIdx ∧ ∀ m, l.largestAcked = some m → m ≤ j
  reference : ∀ m, l.largestAcked = some m → m < l.nextDepIdx
  tombstone : ∀ ws t i, l.tombstones.get? ws = some t → referenceIdx t.tx t.departed = some i →
    i < l.nextDepIdx

variable {l l' : TransmissionLedger}

theorem referenceIdx_eq_some {tx : Transmission} {departed : Option Instant} {i : ℕ}
    (h : referenceIdx tx departed = some i) : tx.depIdx = some i ∧ ∃ at_, departed = some at_ := by
  unfold referenceIdx at h
  split at h
  · exact ⟨by simp_all, _, rfl⟩
  · simp at h

/-- Operations that only take records away, or bury them, keep the order. -/
theorem Ordered.mono (h : Ordered l)
    (hrec : ∀ ws r, l'.records.get? ws = some r → l.records.get? ws = some r)
    (htomb : ∀ ws t, l'.tombstones.get? ws = some t → l.tombstones.get? ws = some t ∨
      ∃ r, l.records.get? ws = some r ∧ t.tx = r.tx ∧ t.departed = r.departed)
    (hlarge : l'.largestAcked = l.largestAcked) (hnext : l'.nextDepIdx = l.nextDepIdx) :
    Ordered l' := by
  refine ⟨fun ws r at_ hr hd => ?_, fun m hm => ?_, fun ws t i ht hi => ?_⟩
  · rw [hlarge, hnext]
    exact h.outstanding ws r at_ (hrec ws r hr) hd
  · rw [hnext]
    exact h.reference m (hlarge ▸ hm)
  · rw [hnext]
    rcases htomb ws t ht with ht' | ⟨r, hr, htx, hdep⟩
    · exact h.tombstone ws t i ht' hi
    · obtain ⟨hidx, at_, hat⟩ := referenceIdx_eq_some hi
      obtain ⟨j, hj, hlt, -⟩ := h.outstanding ws r at_ hr (hdep ▸ hat)
      obtain rfl : i = j := by simpa [← htx, hidx] using hj
      exact hlt

theorem Ordered.sameBook (h : Ordered l) (hb : SameBook l l') : Ordered l' :=
  h.mono (fun _ _ hr => hb.records ▸ hr) (fun _ _ ht => .inl (hb.tombstones ▸ ht))
    hb.largestAcked hb.nextDepIdx

theorem Ordered.verdicts {new : List LostTransmission} (h : Ordered l) (hv : Verdicts l l' new) :
    Ordered l' :=
  h.mono (fun ws r hr => ((hv.records ws r).1 hr).1) hv.tombs hv.largestAcked hv.nextDepIdx

theorem Ordered.forgets {ws : WireSeq} (h : Ordered l) (hf : Forgets l l' ws) : Ordered l' := by
  refine h.mono (fun ws' r hr => ?_) (fun _ _ ht => .inl (hf.tombstones ▸ ht)) hf.largestAcked
    hf.nextDepIdx
  rw [hf.records] at hr
  exact (Dict.get?_of_get?_erase hr).2

theorem Ordered.takeUndeparted (h : Ordered l) (ws : WireSeq) :
    Ordered (l.takeUndeparted ws).1 := by
  rcases l.takeUndeparted_spec ws with ⟨-, hl⟩ | ⟨-, hf⟩
  · rwa [hl]
  · exact h.forgets hf

theorem ordered_of_empty (hrec : l.records = Dict.empty) (htomb : l.tombstones = Dict.empty)
    (hlarge : l.largestAcked = none) : Ordered l where
  outstanding := by simp [hrec]
  reference := by simp [hlarge]
  tombstone := by simp [htomb]

theorem Ordered.record (h : Ordered l) (ws : WireSeq) (at_ : Instant) (tx : Transmission) :
    Ordered (l.record ws at_ tx) := by
  have he := l.record_evicts ws at_ tx
  have hlarge := he.largestAcked.trans (l.putRecord_largestAcked ws _)
  have hnext := he.nextDepIdx.trans (l.putRecord_nextDepIdx ws _)
  have htomb := he.tombstones.trans (l.putRecord_tombstones ws _)
  refine ⟨fun ws' r d hr hd => ?_, fun m hm => ?_, fun ws' t i ht hi => ?_⟩
  · rcases l.record_get? hr with ⟨-, rfl⟩ | ⟨-, hold⟩
    · -- the new record has not departed
      simp [freshRecord] at hd
    · rw [hlarge, hnext]
      exact h.outstanding ws' r d hold hd
  · rw [hnext]
    exact h.reference m (hlarge ▸ hm)
  · rw [hnext]
    exact h.tombstone ws' t i (htomb ▸ ht) hi

theorem Ordered.markDeparted (h : Ordered l) (ws : WireSeq) (at_ : Instant) (us : ℕ) :
    Ordered (l.markDeparted ws at_ us).1 := by
  rcases l.markDeparted_spec ws at_ us with
    ⟨-, hl⟩ | ⟨-, r, hr, -, hrec, htomb, hlarge, hnext, -⟩
  · rwa [hl]
  refine ⟨fun ws' r' d hr' hd => ?_, fun m hm => ?_, fun ws' t i ht hi => ?_⟩
  · rw [hrec, Dict.get?_insert] at hr'
    rw [hnext, hlarge]
    split_ifs at hr' with hws
    · -- the transmission that just departed is newer than any acknowledged one
      obtain rfl := Option.some.inj hr'
      exact ⟨l.nextDepIdx, rfl, by omega, fun m hm => (h.reference m hm).le⟩
    · obtain ⟨j, hj, hlt, hle⟩ := h.outstanding ws' r' d hr' hd
      exact ⟨j, hj, by omega, hle⟩
  · have := h.reference m (hlarge ▸ hm)
    omega
  · have := h.tombstone ws' t i (htomb ▸ ht) hi
    omega

/-- An acknowledgement in departure order leaves the reference below everything outstanding. -/
theorem Ordered.resolves {tx : Transmission} {departed : Option Instant}
    (h : Ordered l) (ws : WireSeq) (hres : Resolves l l' tx departed)
    (hrec : ∀ ws' r, l'.records.get? ws' = some r → ws' ≠ ws ∧ l.records.get? ws' = some r)
    (htomb : ∀ ws' t, l'.tombstones.get? ws' = some t → l.tombstones.get? ws' = some t)
    (hbound : ∀ i, referenceIdx tx departed = some i → i < l.nextDepIdx)
    (horder : ∀ i, referenceIdx tx departed = some i → ¬ l.EarlierOutstanding ws i) :
    Ordered l' := by
  refine ⟨fun ws' r d hr hd => ?_, fun m hm => ?_, fun ws' t i ht hi => ?_⟩
  · obtain ⟨hne, hr⟩ := hrec ws' r hr
    obtain ⟨j, hj, hlt, hle⟩ := h.outstanding ws' r d hr hd
    refine ⟨j, hj, hres.nextDepIdx ▸ hlt, fun m hm => ?_⟩
    rcases hres.largestAcked m hm with hold | hnew
    · exact hle m hold
    · by_contra hlt'
      refine horder m hnew ⟨ws', Dict.mem_keys_of_get? hr, hne, ?_⟩
      simp only [departedIdx, hr, hd, Option.isSome_some, if_true, hj, Option.any_some]
      simpa using hlt'
  · rw [hres.nextDepIdx]
    rcases hres.largestAcked m hm with hold | hnew
    · exact h.reference m hold
    · exact hbound m hnew
  · rw [hres.nextDepIdx]
    exact h.tombstone ws' t i (htomb ws' t ht) hi

theorem Ordered.resolveAt (h : Ordered l) (ws : WireSeq) (ack : Option (Instant × Duration))
    (hin : (LedgerOp.resolveAt ws ack).InOrder l) : Ordered (l.resolveAt ws ack).1 := by
  have hin := hin ws rfl
  unfold TransmissionLedger.resolveAt
  cases hr : l.records.get? ws with
  | some r =>
    refine h.resolves ws (l.resolveLive_resolves ws r ack) (fun ws' r' hr' => ?_)
      (fun ws' t ht => ?_) (fun i hi => ?_) (fun i hi => ?_)
    · rw [resolveLive_records] at hr'
      exact Dict.get?_of_get?_erase hr'
    · rwa [resolveLive_tombstones] at ht
    · obtain ⟨hidx, at_, hat⟩ := referenceIdx_eq_some hi
      obtain ⟨j, hj, hlt, -⟩ := h.outstanding ws r at_ hr hat
      obtain rfl : i = j := by simpa [hidx] using hj
      exact hlt
    · exact hin i (by simp [ackedIdx, hr, hi])
  | none =>
    cases ht : l.tombstones.get? ws with
    | none => exact h.sameBook ⟨rfl, rfl, rfl, rfl, rfl⟩
    | some t =>
      refine h.resolves ws (l.resolveLate_resolves ws t ack) (fun ws' r' hr' => ?_)
        (fun ws' t' ht' => ?_) (fun i hi => h.tombstone ws t i ht hi) (fun i hi => ?_)
      · rw [resolveLate_records] at hr'
        refine ⟨fun hws => ?_, hr'⟩
        rw [hws, hr] at hr'
        simp at hr'
      · rw [resolveLate_tombstones] at ht'
        exact (Dict.get?_of_get?_erase ht').2
      · exact hin i (by simp [ackedIdx, hr, ht, hi])

/-- Every operation keeps the reference below everything outstanding. -/
theorem ordered_step (l : TransmissionLedger) (op : LedgerOp) (h : Ordered l)
    (hin : op.InOrder l) : Ordered (ledgerStep l op) := by
  cases op with
  | record ws at_ tx => exact h.record ws at_ tx
  | markDeparted ws at_ us => exact h.markDeparted ws at_ us
  | resolveAt ws ack => exact h.resolveAt ws ack hin
  | detectLossesAt now thr => exact h.verdicts (l.detectLossesAt_verdicts now thr).1
  | declareLostByPto ws =>
    show Ordered (l.declareLostByPto ws).1
    rcases l.declareLostByPto_verdicts ws with ⟨-, hl⟩ | ⟨tx, -, hv⟩
    · rwa [hl]
    · exact h.verdicts hv
  | forgetUndeparted ws | takeUndeparted ws => exact h.takeUndeparted ws
  | forgetOutstanding ws =>
    show Ordered (l.forgetOutstanding ws).1
    rcases l.forgetOutstanding_spec ws with ⟨-, hl⟩ | ⟨-, hf⟩
    · rwa [hl]
    · exact h.forgets hf
  | noteParityDeparted g at_ retain =>
    exact h.sameBook (l.noteParityDeparted_aside g at_ retain).sameBook
  | markProbeBurst start stop => exact h.sameBook (l.markProbeBurst_aside start stop).sameBook
  | nextLossTime thr => exact h.sameBook (l.nextLossTime_sameBook thr)
  | scanOutstanding cursor n maxScan =>
    exact h.sameBook (l.scanOutstanding_sameBook cursor n maxScan)
  | latestOutstandingDeparture => exact h.sameBook l.trimDeparted_sameBook
  | discardUndeparted =>
    exact h.mono (fun ws r hr => ((Dict.get?_retain_eq_some _ _ _ _).1 hr).1)
      (fun _ _ ht => .inl ht) rfl rfl
  | resetSession => exact ordered_of_empty rfl rfl rfl

/-- With everything outstanding newer than the reference, the walk finds nothing to judge. -/
theorem detectWalk_eq_nil {p : DetectParams} (rest passed : List WireSeq) (stepped : ℕ)
    (lost : List LostTransmission)
    (h : ∀ ws r, l.records.get? ws = some r → r.departed.isSome →
      p.largestIdx ≤ r.tx.depIdx.getD (2 ^ 64 - 1)) :
    (detectWalk p passed rest stepped l lost).2 = lost := by
  fun_induction detectWalk p passed rest stepped l lost with
  | case1 => rfl
  | case2 _ _ _ _ _ _ _ ih => exact ih h
  | case3 => rfl
  | case4 _ _ _ _ _ _ _ ih => exact ih h
  | case5 passed ws rest stepped l lost reason branch hj =>
    obtain ⟨-, r, hr, hd, hlt⟩ := l.judge_eq_lost hj
    have := h ws r hr hd
    omega

theorem Ordered.detectLossesAt_eq_nil (h : Ordered l) (now : Instant) (thr : Duration) :
    (l.detectLossesAt now thr).2 = [] := by
  unfold detectLossesAt
  cases hlarge : l.largestAcked with
  | none => rfl
  | some m =>
    refine detectWalk_eq_nil _ _ _ _ fun ws r hr hd => ?_
    obtain ⟨at_, hat⟩ := Option.isSome_iff_exists.1 hd
    obtain ⟨j, hj, -, hle⟩ := h.outstanding ws r at_ hr hat
    rw [hj]
    exact hle m hlarge

/-- **Queueing alone never causes a verdict.** In a run in which departed transmissions are
acknowledged in departure order, detection finds nothing: for every clock, threshold, set of probe
bursts, and whatever the packet threshold, the reordering window and depth were learned to be. -/
theorem detectLossesAt_eq_nil_of_inOrder (capacity : ℕ) (ops : List LedgerOp)
    (hin : Along LedgerOp.InOrder ledgerStep (.new capacity) ops)
    (now : Instant) (timeThreshold : Duration) (bursts : List (Instant × Instant))
    (kPkt reoDepth : ℕ) (reoWnd : Duration) :
    ({ run ledgerStep (.new capacity) ops with
        probeBursts := bursts
        kPkt := kPkt
        reoWnd := reoWnd
        reoDepth := reoDepth }.detectLossesAt now timeThreshold).2 = [] := by
  have h : Ordered (run ledgerStep (.new capacity) ops) :=
    hin.inv (fun l op => ordered_step l op) (ordered_of_empty rfl rfl rfl)
  have h' : Ordered
      { run ledgerStep (.new capacity) ops with
        probeBursts := bursts
        kPkt := kPkt
        reoWnd := reoWnd
        reoDepth := reoDepth } :=
    ⟨h.outstanding, h.reference, h.tombstone⟩
  exact h'.detectLossesAt_eq_nil now timeThreshold

/-- Four departures in a queue, the first acknowledged. -/
def queuedOps : List LedgerOp :=
  [.record 0 0 (sampleTx 0), .record 1 0 (sampleTx 1), .record 2 0 (sampleTx 2),
    .record 3 0 (sampleTx 3), .markDeparted 0 5 5, .markDeparted 1 5 5, .markDeparted 2 6 6,
    .markDeparted 3 6 6, .resolveAt 0 none]

theorem detectLossesAt_eq_nil_queued :
    (run ledgerStep (.new 8) queuedOps).largestAcked = some 0 ∧
      (run ledgerStep (.new 8) queuedOps).len = 3 ∧
      ({ run ledgerStep (.new 8) queuedOps with
          probeBursts := []
          kPkt := 0
          reoWnd := 0
          reoDepth := 0 }.detectLossesAt (fromSecs 100) 0).2 = [] :=
  ⟨by decide +kernel, by decide +kernel,
    detectLossesAt_eq_nil_of_inOrder 8 queuedOps (by decide +kernel) (fromSecs 100) 0 [] 0 0 0⟩

end Ghostframe.Transport
