import Ghostframe.Lib.DictSum
import Ghostframe.Transport.LedgerFrames

/-!
# The tally of bytes in flight

The ledger keeps `departedBytes` beside its records, raised when a record departs
and lowered, with a saturating subtraction, when a departed record leaves.

* `Tallied`: the tally is the sum of the wire bytes of the departed outstanding
  records;
* `Tallied.leave`: a record that leaves is part of the sum, so the subtraction is
  exact; every way out goes through it;
* `departedBytes_eq_sum`: the tally is exact in every state of every run.
-/

namespace Ghostframe.Transport

open Dict

/-- The bytes a record has in flight: none before it departs. -/
def Record.bytesInFlight (r : Record) : ℕ := if r.departed.isSome then r.tx.wireBytes else 0

namespace TransmissionLedger

/-- The bytes of the outstanding records that have departed. -/
def bytesInFlight (l : TransmissionLedger) : ℕ := l.records.sumOf Record.bytesInFlight

/-- The tally is exact. -/
def Tallied (l : TransmissionLedger) : Prop := l.departedBytes = l.bytesInFlight

variable {l l' : TransmissionLedger}

theorem Tallied.congr (h : Tallied l) (hrec : l'.records = l.records)
    (hbytes : l'.departedBytes = l.departedBytes) : Tallied l' := by
  rw [Tallied, hbytes, bytesInFlight, hrec]
  exact h

theorem Tallied.untouched (h : Tallied l) (hu : Untouched l l') : Tallied l' :=
  h.congr hu.records hu.departedBytes

theorem leave_departedBytes (l : TransmissionLedger) (r : Record) :
    (l.leave r).departedBytes = l.departedBytes - r.bytesInFlight := by
  unfold leave Record.bytesInFlight
  split_ifs <;> simp

/-! ### Records that leave -/

variable {r : Record} {ws : WireSeq}

theorem Tallied.le (h : Tallied l) (hr : l.records.get? ws = some r) :
    r.bytesInFlight ≤ l.departedBytes :=
  (Dict.le_sumOf Record.bytesInFlight hr).trans_eq h.symm

/-- A record leaves: the tally loses exactly its bytes. -/
theorem Tallied.leave (h : Tallied l)
    (hr : l.records.get? ws = some r) :
    Tallied ({ l with records := l.records.erase ws }.leave r) := by
  have hsum := Dict.sumOf_erase Record.bytesInFlight hr
  rw [Tallied, leave_departedBytes, bytesInFlight, leave_records]
  show l.departedBytes - r.bytesInFlight = (l.records.erase ws).sumOf Record.bytesInFlight
  rw [show l.departedBytes = _ from h, bytesInFlight, hsum]
  exact Nat.add_sub_cancel_left _ _

/-- A record that has not departed leaves: the tally stays. -/
theorem Tallied.erase (h : Tallied l)
    (hr : l.records.get? ws = some r) (hd : r.departed = none)
    (hrec : l'.records = l.records.erase ws)
    (hbytes : l'.departedBytes = l.departedBytes) : Tallied l' := by
  have hsum := Dict.sumOf_erase Record.bytesInFlight hr
  have hzero : r.bytesInFlight = 0 := by simp [Record.bytesInFlight, hd]
  rw [hzero, Nat.zero_add] at hsum
  rw [Tallied, hbytes, bytesInFlight, hrec, ← hsum]
  exact h

theorem Tallied.evictOldest (h : Tallied l) (oldest : WireSeq) :
    Tallied (l.evictOldest oldest) := by
  unfold TransmissionLedger.evictOldest
  cases hr : l.records.get? oldest with
  | none => exact h
  | some r => exact (h.leave hr).congr rfl rfl

theorem Tallied.evictOver (order : List WireSeq) (h : Tallied l) : Tallied (evictOver order l) :=
  evictOver_inv order (fun _ _ h => h.congr rfl rfl) (fun _ ws h => h.evictOldest ws) h

theorem Tallied.compactIfSparse (h : Tallied l) : Tallied l.compactIfSparse := by
  obtain ⟨_, _, heq⟩ := l.compactIfSparse_eq
  rw [heq]
  exact h.congr rfl rfl

/-! ### Recording and departing -/

/-- A fresh record has nothing in flight; the one it replaces leaves. -/
theorem Tallied.putRecord (h : Tallied l) (ws : WireSeq) (hd : r.departed = none) :
    Tallied (l.putRecord ws r) := by
  have hzero : r.bytesInFlight = 0 := by simp [Record.bytesInFlight, hd]
  have hput := l.records.sumOf_insert Record.bytesInFlight ws r
  rw [hzero, Nat.zero_add] at hput
  rw [Tallied, bytesInFlight, putRecord_records, hput]
  unfold TransmissionLedger.putRecord
  cases hold : l.records.get? ws with
  | none =>
    rw [sumOf_erase_of_get?_eq_none _ hold]
    exact h
  | some old =>
    have hsum := Dict.sumOf_erase Record.bytesInFlight hold
    have htally : l.departedBytes = l.records.sumOf Record.bytesInFlight := h
    simp only [leave_departedBytes]
    omega

theorem Tallied.record (h : Tallied l) (ws : WireSeq) (at_ : Instant) (tx : Transmission) :
    Tallied (l.record ws at_ tx) :=
  ((h.putRecord ws rfl).evictOver _).compactIfSparse

theorem Tallied.markDeparted (h : Tallied l) (ws : WireSeq) (at_ : Instant) (us : ℕ) :
    Tallied (l.markDeparted ws at_ us).1 := by
  unfold TransmissionLedger.markDeparted
  cases hr : l.records.get? ws with
  | none => exact h
  | some r =>
    simp only
    split_ifs with hd
    · exact h
    · -- the record had nothing in flight, and has all its bytes in flight now
      have hsum := Dict.sumOf_erase Record.bytesInFlight hr
      have hzero : r.bytesInFlight = 0 := by simp [Record.bytesInFlight, hd]
      have htally : l.departedBytes = l.records.sumOf Record.bytesInFlight := h
      rw [Tallied, bytesInFlight, sumOf_insert]
      show l.departedBytes + r.tx.wireBytes =
        r.tx.wireBytes + (l.records.erase ws).sumOf Record.bytesInFlight
      omega

/-! ### The other ways out -/

theorem Tallied.takeUndeparted (h : Tallied l) (ws : WireSeq) :
    Tallied (l.takeUndeparted ws).1 := by
  unfold TransmissionLedger.takeUndeparted
  cases hr : l.records.get? ws with
  | none => exact h
  | some r =>
    simp only
    split_ifs with hd
    · exact h
    · exact h.erase hr (by simpa using hd) rfl rfl

theorem Tallied.forgetOutstanding (h : Tallied l) (ws : WireSeq) :
    Tallied (l.forgetOutstanding ws).1 := by
  unfold TransmissionLedger.forgetOutstanding
  cases hr : l.records.get? ws with
  | none => exact h
  | some r => exact (h.leave hr).congr rfl rfl

/-- What is dropped had nothing in flight. -/
theorem Tallied.discardUndeparted (h : Tallied l) : Tallied l.discardUndeparted.1 := by
  have hsum : (l.records.retain fun _ r => r.departed.isSome).sumOf Record.bytesInFlight =
      l.records.sumOf Record.bytesInFlight := by
    refine sumOf_congr _ fun ws => ?_
    rw [valueAt, valueAt, get?_retain]
    cases l.records.get? ws with
    | none => rfl
    | some r =>
      by_cases hd : r.departed.isSome
      · simp [Option.filter, hd]
      · simp [Option.filter, hd, Record.bytesInFlight]
  exact (show l.departedBytes = _ from h).trans hsum.symm

theorem Tallied.resolveLive (h : Tallied l)
    (hr : l.records.get? ws = some r) (ack : Option (Instant × Duration)) :
    Tallied (l.resolveLive ws r ack) := by
  have hmove := { l with records := l.records.erase ws }.moveReference_untouched r.tx r.departed ack
  refine (h.leave hr).congr ?_ ?_
  · rw [resolveLive_records, leave_records]
  · rw [TransmissionLedger.resolveLive, leave_departedBytes, leave_departedBytes,
      hmove.departedBytes]

theorem Tallied.resolveAt (h : Tallied l) (ws : WireSeq) (ack : Option (Instant × Duration)) :
    Tallied (l.resolveAt ws ack).1 := by
  unfold TransmissionLedger.resolveAt
  cases hr : l.records.get? ws with
  | some r => exact h.resolveLive hr ack
  | none =>
    cases l.tombstones.get? ws with
    | none => exact h.untouched (l.untouched_stats _)
    | some t =>
      exact h.congr (l.resolveLate_records ws t ack) (l.resolveLate_departed ws t ack).2

/-! ### Verdicts -/

theorem Tallied.bury (h : Tallied l)
    (hr : l.records.get? ws = some r) (reason : LossReason) : Tallied (l.bury ws r reason) := by
  obtain ⟨verdicts, bits, hnumber⟩ := (l.strike ws r reason).numberVerdict_eq reason
  unfold TransmissionLedger.bury entomb
  obtain ⟨tombs, order, stats, hevict, -⟩ := evictTombstones_eq
    (((l.strike ws r reason).numberVerdict reason).1.tombstoneOrder ++ [ws])
    { ((l.strike ws r reason).numberVerdict reason).1 with
      tombstones := ((l.strike ws r reason).numberVerdict reason).1.tombstones.insert ws
        (l.tombstoneOf r reason ((l.strike ws r reason).numberVerdict reason).2) }
  rw [hevict, hnumber]
  exact (h.leave hr).congr rfl rfl

theorem Tallied.declareLost (h : Tallied l) (ws : WireSeq) (reason : LossReason)
    (lost : List LostTransmission) : Tallied (l.declareLost ws reason lost).1 := by
  unfold TransmissionLedger.declareLost
  cases hr : l.records.get? ws with
  | none => exact h
  | some r => exact h.bury hr reason

theorem Tallied.detectWalk (p : DetectParams) (rest passed : List WireSeq) (stepped : ℕ)
    (h : Tallied l) (lost : List LostTransmission) :
    Tallied (detectWalk p passed rest stepped l lost).1 := by
  induction rest generalizing passed stepped l lost with
  | nil => exact h.untouched (l.untouched_departedOrder _)
  | cons ws rest ih =>
    unfold TransmissionLedger.detectWalk
    cases l.judge p stepped ws with
    | dead => exact ih _ _ h _
    | stop => exact h.untouched (l.untouched_departedOrder _)
    | patient => exact ih _ _ h _
    | lost reason branch =>
      exact ih _ _ ((h.untouched (l.untouched_stats _)).declareLost ws reason lost) _

theorem Tallied.detectLossesAt (h : Tallied l) (now : Instant) (thr : Duration) :
    Tallied (l.detectLossesAt now thr).1 := by
  have hstart := h.untouched (l.noteThreshold_aside thr).untouched
  unfold TransmissionLedger.detectLossesAt
  cases l.largestAcked with
  | none => exact hstart
  | some largestIdx =>
    exact ((hstart.detectWalk _ _ _ _ _).untouched
      (noteRecovery_aside _ _ _ _).untouched).compactIfSparse

end TransmissionLedger

open TransmissionLedger

/-! ### Runs -/

/-- Every operation keeps the tally exact. -/
theorem tallied_step {l : TransmissionLedger} (h : Tallied l) (op : LedgerOp) :
    Tallied (ledgerStep l op) := by
  cases op with
  | record ws at_ tx => exact h.record ws at_ tx
  | markDeparted ws at_ us => exact h.markDeparted ws at_ us
  | resolveAt ws ack => exact h.resolveAt ws ack
  | detectLossesAt now thr => exact h.detectLossesAt now thr
  | declareLostByPto ws => exact h.declareLost ws .pto []
  | forgetUndeparted ws | takeUndeparted ws => exact h.takeUndeparted ws
  | forgetOutstanding ws => exact h.forgetOutstanding ws
  | discardUndeparted => exact h.discardUndeparted
  | resetSession => exact (sumOf_empty _).symm
  | noteParityDeparted | markProbeBurst | nextLossTime | scanOutstanding
  | latestOutstandingDeparture => exact h.untouched (ledgerStep_untouched l trivial)

/-- **The tally of bytes in flight is exact.** After any operations on a new ledger, in any order
and with numbers used again at will, `departedBytes` is the sum of the wire bytes of the departed
outstanding records; so what a leaving record takes from the tally is always there. -/
theorem departedBytes_eq_sum (capacity : ℕ) (ops : List LedgerOp) :
    (run ledgerStep (.new capacity) ops).departedBytes =
        (run ledgerStep (.new capacity) ops).bytesInFlight ∧
      ∀ ws r, (run ledgerStep (.new capacity) ops).records.get? ws = some r →
        r.bytesInFlight ≤ (run ledgerStep (.new capacity) ops).departedBytes := by
  have htally : Tallied (run ledgerStep (.new capacity) ops) :=
    run_inv (I := Tallied) (fun l op _ h => tallied_step h op) (sumOf_empty _).symm
  exact ⟨htally, fun _ _ hr => htally.le hr⟩

/-- Two records depart, and the number of the first is used again. -/
def reusedOps : List LedgerOp :=
  [.record 0 0 (sampleTx 0), .markDeparted 0 5 5, .record 1 0 (sampleTx 1), .markDeparted 1 5 5,
    .record 0 9 (sampleTx 2)]

theorem departedBytes_eq_sum_reused :
    (run ledgerStep (.new 8) reusedOps).departedBytes = 100 ∧
      (run ledgerStep (.new 8) reusedOps).bytesInFlight = 100 ∧
      ∃ r, (run ledgerStep (.new 8) reusedOps).records.get? 1 = some r ∧ r.bytesInFlight = 100 ∧
        r.bytesInFlight ≤ (run ledgerStep (.new 8) reusedOps).departedBytes := by
  obtain ⟨hsum, hle⟩ := departedBytes_eq_sum 8 reusedOps
  have hbytes : (run ledgerStep (.new 8) reusedOps).departedBytes = 100 := by decide +kernel
  refine ⟨hbytes, hsum ▸ hbytes, ?_⟩
  refine ⟨⟨0, some 5, { sampleTx 1 with departUs := some 5, depIdx := some 1 }⟩, ?_, rfl, ?_⟩
  · decide +kernel
  · exact hle 1 _ (by decide +kernel)

end Ghostframe.Transport
