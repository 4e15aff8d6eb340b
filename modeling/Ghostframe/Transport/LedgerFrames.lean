import Ghostframe.Transport.LedgerInOrder

/-!
# What most of the ledger's code leaves alone

The tally of bytes in flight, the evidence behind the packet threshold and the
order queues are written in few places. `Untouched l l'` says that a function
passes all of them on as they were; the departure order is not among them (its
trimming is described where it is used).

* `Unjudged`: the same without the records, for the operations that give no verdict.
-/

namespace Ghostframe.Transport

namespace TransmissionLedger

/-- `l'` has the outstanding records, the tombstones, the queues, the tally and the evidence
of `l`. -/
structure Untouched (l l' : TransmissionLedger) : Prop where
  records : l'.records = l.records
  tombstones : l'.tombstones = l.tombstones
  capacity : l'.capacity = l.capacity
  tombstoneOrder : l'.tombstoneOrder = l.tombstoneOrder
  departedBytes : l'.departedBytes = l.departedBytes
  verdicts : l'.verdicts = l.verdicts
  spuriousBits : l'.spuriousBits = l.spuriousBits
  kPkt : l'.kPkt = l.kPkt

variable {l l' l'' : TransmissionLedger}

theorem Untouched.refl (l : TransmissionLedger) : Untouched l l := by
  constructor <;> rfl

theorem Untouched.trans (h : Untouched l l') (h' : Untouched l' l'') : Untouched l l'' where
  records := h'.records.trans h.records
  tombstones := h'.tombstones.trans h.tombstones
  capacity := h'.capacity.trans h.capacity
  tombstoneOrder := h'.tombstoneOrder.trans h.tombstoneOrder
  departedBytes := h'.departedBytes.trans h.departedBytes
  verdicts := h'.verdicts.trans h.verdicts
  spuriousBits := h'.spuriousBits.trans h.spuriousBits
  kPkt := h'.kPkt.trans h.kPkt

theorem Aside.untouched (h : Aside l l') : Untouched l l' :=
  ⟨h.records, h.tombstones, h.capacity, h.tombstoneOrder, h.departedBytes, h.verdicts,
    h.spuriousBits, h.kPkt⟩

variable (l)

theorem untouched_stats (s : LedgerStats) : Untouched l { l with stats := s } := by
  constructor <;> rfl

theorem untouched_departedOrder (order : List WireSeq) :
    Untouched l { l with departedOrder := order } := by
  constructor <;> rfl

theorem moveReference_untouched (tx : Transmission) (departed : Option Instant)
    (ack : Option (Instant × Duration)) : Untouched l (l.moveReference tx departed ack) := by
  obtain ⟨_, _, _, heq, -⟩ := l.moveReference_eq tx departed ack
  rw [heq]
  constructor <;> rfl

theorem nextLossTime_untouched (thr : Duration) : Untouched l (l.nextLossTime thr).1 := by
  unfold nextLossTime
  cases l.largestAcked <;> constructor <;> rfl

theorem trimDeparted_untouched : Untouched l l.trimDeparted :=
  l.untouched_departedOrder _

theorem scanOutstanding_untouched (cursor n maxScan : ℕ) :
    Untouched l (l.scanOutstanding cursor n maxScan).1 := by
  unfold scanOutstanding
  split_ifs
  · exact l.trimDeparted_untouched
  · exact Untouched.refl l

/-! ### Records that come and go -/

/-- No verdict was given and none contradicted: the tombstones and the evidence are those of `l`. -/
structure Unjudged (l l' : TransmissionLedger) : Prop where
  tombstones : l'.tombstones = l.tombstones
  tombstoneOrder : l'.tombstoneOrder = l.tombstoneOrder
  capacity : l'.capacity = l.capacity
  verdicts : l'.verdicts = l.verdicts
  spuriousBits : l'.spuriousBits = l.spuriousBits
  kPkt : l'.kPkt = l.kPkt

variable {l} in
theorem Untouched.unjudged (h : Untouched l l') : Unjudged l l' :=
  ⟨h.tombstones, h.tombstoneOrder, h.capacity, h.verdicts, h.spuriousBits, h.kPkt⟩

theorem Unjudged.refl (l : TransmissionLedger) : Unjudged l l := ⟨rfl, rfl, rfl, rfl, rfl, rfl⟩

variable {l} in
theorem Unjudged.trans (h : Unjudged l l') (h' : Unjudged l' l'') : Unjudged l l'' where
  tombstones := h'.tombstones.trans h.tombstones
  tombstoneOrder := h'.tombstoneOrder.trans h.tombstoneOrder
  capacity := h'.capacity.trans h.capacity
  verdicts := h'.verdicts.trans h.verdicts
  spuriousBits := h'.spuriousBits.trans h.spuriousBits
  kPkt := h'.kPkt.trans h.kPkt

theorem leave_unjudged (r : Record) : Unjudged l (l.leave r) := by
  unfold leave
  split_ifs <;> constructor <;> rfl

variable (ws : WireSeq)

theorem erase_leave_unjudged (r : Record) :
    Unjudged l ({ l with records := l.records.erase ws }.leave r) := by
  have hleave := { l with records := l.records.erase ws }.leave_unjudged r
  exact ⟨hleave.tombstones, hleave.tombstoneOrder, hleave.capacity, hleave.verdicts,
    hleave.spuriousBits, hleave.kPkt⟩

theorem compactIfSparse_unjudged : Unjudged l l.compactIfSparse := by
  obtain ⟨_, _, heq⟩ := l.compactIfSparse_eq
  rw [heq]
  constructor <;> rfl

theorem evictOldest_unjudged (oldest : WireSeq) : Unjudged l (l.evictOldest oldest) := by
  unfold evictOldest
  cases l.records.get? oldest with
  | none => exact Unjudged.refl l
  | some r => exact (l.erase_leave_unjudged oldest r).trans (untouched_stats _ _).unjudged

theorem evictOver_unjudged (order : List WireSeq) (l : TransmissionLedger) :
    Unjudged l (evictOver order l) := by
  refine evictOver_inv order (fun _ _ h => h.trans ?_)
    (fun m ws h => h.trans (m.evictOldest_unjudged ws)) (Unjudged.refl l)
  constructor <;> rfl

theorem putRecord_unjudged (r : Record) : Unjudged l (l.putRecord ws r) := by
  unfold putRecord
  cases l.records.get? ws with
  | none => constructor <;> rfl
  | some old =>
    have hleave := { l with records := l.records.insert ws r }.leave_unjudged old
    exact ⟨hleave.tombstones, hleave.tombstoneOrder, hleave.capacity, hleave.verdicts,
      hleave.spuriousBits, hleave.kPkt⟩

theorem record_unjudged (at_ : Instant) (tx : Transmission) :
    Unjudged l (l.record ws at_ tx) :=
  ((l.putRecord_unjudged ws _).trans (evictOver_unjudged _ _)).trans (compactIfSparse_unjudged _)

theorem markDeparted_unjudged (at_ : Instant) (us : ℕ) :
    Unjudged l (l.markDeparted ws at_ us).1 := by
  unfold markDeparted
  cases l.records.get? ws with
  | none => exact Unjudged.refl l
  | some r =>
    simp only
    split_ifs <;> constructor <;> rfl

theorem takeUndeparted_unjudged : Unjudged l (l.takeUndeparted ws).1 := by
  unfold takeUndeparted
  cases l.records.get? ws with
  | none => exact Unjudged.refl l
  | some r =>
    simp only
    split_ifs <;> constructor <;> rfl

theorem forgetOutstanding_unjudged : Unjudged l (l.forgetOutstanding ws).1 := by
  unfold forgetOutstanding
  cases l.records.get? ws with
  | none => exact Unjudged.refl l
  | some r => exact (l.erase_leave_unjudged ws r).trans (untouched_stats _ _).unjudged

theorem resolveLive_unjudged (r : Record) (ack : Option (Instant × Duration)) :
    Unjudged l (l.resolveLive ws r ack) := by
  have hmove := { l with records := l.records.erase ws }.moveReference_untouched r.tx r.departed ack
  have herase : Unjudged l { l with records := l.records.erase ws } :=
    ⟨rfl, rfl, rfl, rfl, rfl, rfl⟩
  exact (herase.trans hmove.unjudged).trans (leave_unjudged _ r)

/-! ### Verdicts -/

theorem numberVerdict_eq (reason : LossReason) :
    ∃ verdicts bits, (l.numberVerdict reason).1 =
      { l with verdicts := verdicts, spuriousBits := bits } := by
  unfold numberVerdict
  split_ifs <;> exact ⟨_, _, rfl⟩

end TransmissionLedger

open TransmissionLedger

/-- The operations that touch neither the records, the tombstones nor what is kept about them. -/
def LedgerOp.Reads : LedgerOp → Prop
  | .noteParityDeparted .. | .markProbeBurst .. | .nextLossTime .. | .scanOutstanding .. => True
  | .latestOutstandingDeparture => True
  | _ => False

theorem ledgerStep_untouched (l : TransmissionLedger) {op : LedgerOp} (hop : op.Reads) :
    Untouched l (ledgerStep l op) := by
  cases op with
  | noteParityDeparted g at_ retain => exact (l.noteParityDeparted_aside g at_ retain).untouched
  | markProbeBurst start stop => exact (l.markProbeBurst_aside start stop).untouched
  | nextLossTime thr => exact l.nextLossTime_untouched thr
  | scanOutstanding cursor n maxScan => exact l.scanOutstanding_untouched cursor n maxScan
  | latestOutstandingDeparture => exact l.trimDeparted_untouched
  | record | markDeparted | resolveAt | detectLossesAt | declareLostByPto | forgetUndeparted
  | takeUndeparted | forgetOutstanding | discardUndeparted | resetSession => exact hop.elim

end Ghostframe.Transport
