import Ghostframe.Client.Batchers
import Ghostframe.Lib.Run

/-!
# What acknowledgement batching loses

`AckBatcher` repeats the last few entries already sent behind the new ones of each batch.

* `acks_survive_dropped_batch`: every entry is new in one batch, in order, and a batch
  of at most `ACK_OVERLAP_COUNT` new entries can be dropped;
* `dropped_batch_loses_ack`: a batch of nine cannot.
-/

namespace Ghostframe.Client

open List

/-- `MAX_ACK_ENTRIES_PER_BATCH`. -/
def maxAckEntriesPerBatch : ℕ := maxFreshEntriesPerBatch + ackOverlapCount
def ackEntrySize : ℕ := 6

/-- Why a batch is refused. -/
inductive AckDecodeError
  | tooShort (len : ℕ)
  | wrongMsgType (got : UInt8)
  | invalidCount (count : UInt8)
  deriving DecidableEq

/-- The entry at an offset of a batch. -/
def ackEntryAt (data : Bytes) (off : ℕ) : AckEntry :=
  ⟨le32At data off, ofBe16 (data.getD (off + 5) 0) (data.getD (off + 4) 0)⟩

/-- `AckBatch::decode`. -/
def decodeAckBatch (data : Bytes) : Except AckDecodeError (List AckEntry) :=
  if data.length < 2 then .error (.tooShort data.length)
  else if data.getD 0 0 ≠ ackBatchMsgType then .error (.wrongMsgType (data.getD 0 0))
  else
    let count := data.getD 1 0
    if count = 0 ∨ maxAckEntriesPerBatch < count.toNat then .error (.invalidCount count)
    else if data.length < 2 + count.toNat * ackEntrySize then .error (.tooShort data.length)
    else .ok ((List.range count.toNat).map fun i => ackEntryAt data (2 + i * ackEntrySize))

/-- `on_timeout`. -/
def AckBatcher.onTimeout (b : AckBatcher) (nowUs : ℕ) : AckBatcher × Option Bytes :=
  if b.deadlineUs.any fun deadline => decide (deadline ≤ nowUs) then b.flush else (b, none)

/-! ### The wire format -/

/-- The bytes of an entry. -/
def AckEntry.bytes (e : AckEntry) : Bytes := le32 e.wireSeq ++ le16 e.arrivalTimeMsLo16

theorem ackEntryAt_append (pre post : Bytes) (e : AckEntry) :
    ackEntryAt (pre ++ (e.bytes ++ post)) pre.length = e := by
  have hseq := le32At_append pre (le16 e.arrivalTimeMsLo16 ++ post) e.wireSeq
  rw [AckEntry.bytes, append_assoc, ackEntryAt, hseq]
  simp [le32, be32, le16, be16]

/-- The entries are read back from behind any front part. -/
theorem map_ackEntryAt (entries : List AckEntry) (pre : Bytes) :
    (List.range entries.length).map (fun i => ackEntryAt
      (pre ++ (entries.map AckEntry.bytes).flatten) (pre.length + i * ackEntrySize)) = entries := by
  induction entries generalizing pre with
  | nil => rfl
  | cons e entries ih =>
    have hrest := ih (pre ++ e.bytes)
    rw [length_cons, range_succ_eq_map, map_cons, map_map, Nat.zero_mul,
      Nat.add_zero, map_cons, flatten_cons, ackEntryAt_append]
    refine congrArg (e :: ·) (Eq.trans (map_congr_left fun i _ => ?_) hrest)
    have hoff : pre.length + (i + 1) * ackEntrySize =
        (pre ++ e.bytes).length + i * ackEntrySize := by
      rw [length_append, Nat.succ_mul, Nat.add_assoc, Nat.add_comm (i * _)]
      rfl
    rw [Function.comp_apply, hoff, append_assoc]

/-- **A batch within the cap is read back.** -/
theorem decodeAckBatch_encodeAckBatch {entries : List AckEntry} (hne : entries ≠ [])
    (hcap : entries.length ≤ maxAckEntriesPerBatch) :
    decodeAckBatch (encodeAckBatch entries) = .ok entries := by
  have hcount : (UInt8.ofNat entries.length).toNat = entries.length :=
    UInt8.toNat_ofNat_of_lt' (lt_of_le_of_lt hcap (by decide))
  have hzero : UInt8.ofNat entries.length ≠ 0 := by
    intro h
    rw [h] at hcount
    exact hne (eq_nil_of_length_eq_zero hcount.symm)
  have hlen : (encodeAckBatch entries).length = 2 + entries.length * ackEntrySize := by
    simp [encodeAckBatch, length_flatten, Function.comp_def, le16, ackEntrySize]
    omega
  have hread := map_ackEntryAt entries [ackBatchMsgType, .ofNat entries.length]
  have hhead : (encodeAckBatch entries).getD 0 0 = ackBatchMsgType := rfl
  have hsecond : (encodeAckBatch entries).getD 1 0 = .ofNat entries.length := rfl
  simp only [decodeAckBatch, hhead, hsecond, hcount, hlen]
  rw [if_neg (by omega), if_neg (by simp), if_neg (by rw [not_or, not_lt]; exact ⟨hzero, hcap⟩),
    if_neg (by omega)]
  exact congrArg _ hread

/-! ### Runs -/

/-- A batch sent, with the entries that were new in it. -/
structure SentBatch where
  fresh : List AckEntry
  bytes : Bytes

/-- The entries the server reads from a batch. -/
def SentBatch.entries (b : SentBatch) : List AckEntry := (decodeAckBatch b.bytes).toOption.getD []

/-- The new entries of some batches, the newest batch first. -/
def freshOf (sent : List SentBatch) : List AckEntry := sent.reverse.flatMap SentBatch.fresh

theorem freshOf_cons (b : SentBatch) (earlier : List SentBatch) :
    freshOf (b :: earlier) = freshOf earlier ++ b.fresh := by
  simp [freshOf]

/-- A batcher, what was added to it and what it sent, the newest batch first. -/
structure AckRun where
  batcher : AckBatcher := {}
  added : List AckEntry := []
  sent : List SentBatch := []

/-- A call of the batcher. -/
inductive AckBatchOp
  | add (entry : AckEntry) (nowUs : ℕ)
  | onTimeout (nowUs : ℕ)
  | flush

namespace AckRun

/-- An entry waits. -/
def push (s : AckRun) (entry : AckEntry) : AckRun :=
  { s with
    batcher := { s.batcher with entries := s.batcher.entries ++ [entry] }
    added := s.added ++ [entry] }

/-- What a call returned; a batch holds everything that waited. -/
def log (s : AckRun) (result : AckBatcher × Option Bytes) : AckRun :=
  { s with
    batcher := result.1
    sent := (result.2.toList.map fun bytes => ⟨s.batcher.entries, bytes⟩) ++ s.sent }

/-- One call. -/
def step (s : AckRun) : AckBatchOp → AckRun
  | .add entry nowUs => (s.push entry).log (s.batcher.add entry nowUs)
  | .onTimeout nowUs => s.log (s.batcher.onTimeout nowUs)
  | .flush => s.log s.batcher.flush

/-- A batch as the server reads it: new entries, then the last ones sent before them. -/
def Packed (earlier : List SentBatch) (b : SentBatch) : Prop :=
  1 ≤ b.entries.length ∧ b.entries.length ≤ maxAckEntriesPerBatch ∧
    decodeAckBatch b.bytes = .ok b.entries ∧
    b.entries = b.fresh ++ (freshOf earlier).rtake ackOverlapCount

/-- What holds in every state of a run. -/
structure Inv (s : AckRun) : Prop where
  kept : freshOf s.sent ++ s.batcher.entries = s.added
  recent : s.batcher.recent = (freshOf s.sent).rtake maxRecent
  packed : ∀ later b earlier, s.sent = later ++ b :: earlier → Packed earlier b

variable {s : AckRun}

theorem Inv.push (h : Inv s) (entry : AckEntry) : Inv (s.push entry) where
  kept := by simp only [AckRun.push, ← append_assoc, h.kept]
  recent := h.recent
  packed := h.packed

theorem packed_encode {earlier : List SentBatch} {fresh : List AckEntry} (hne : fresh ≠ [])
    (hcap : fresh.length ≤ maxFreshEntriesPerBatch) :
    Packed earlier
      ⟨fresh, encodeAckBatch (fresh ++ (freshOf earlier).rtake ackOverlapCount)⟩ := by
  have hlen : (fresh ++ (freshOf earlier).rtake ackOverlapCount).length ≤
      maxAckEntriesPerBatch := by
    rw [length_append, rtake, length_drop, maxAckEntriesPerBatch]
    omega
  have hread := decodeAckBatch_encodeAckBatch (by simp [hne]) hlen
  have hsome : ∀ entries : List AckEntry,
      (Except.ok entries : Except AckDecodeError _).toOption.getD [] = entries := fun _ => rfl
  simp only [Packed, SentBatch.entries, hread, hsome]
  exact ⟨length_pos_of_ne_nil (by simp [hne]), hlen, trivial, trivial⟩

/-- What a flush leaves when something waits. -/
theorem log_flush (h : Inv s) (hne : s.batcher.entries ≠ []) :
    s.log s.batcher.flush =
      { s with
        batcher := ⟨[], (freshOf s.sent ++ s.batcher.entries).rtake maxRecent, none⟩
        sent := ⟨s.batcher.entries, encodeAckBatch
          (s.batcher.entries ++ (freshOf s.sent).rtake ackOverlapCount)⟩ :: s.sent } := by
  have hflush : s.batcher.flush =
      (⟨[], (s.batcher.recent ++ s.batcher.entries).rtake maxRecent, none⟩,
        some (encodeAckBatch (s.batcher.entries ++ s.batcher.recent.rtake ackOverlapCount))) :=
    if_neg hne
  have hfew : ackOverlapCount ≤ maxRecent := by decide
  rw [hflush, h.recent]
  simp [log, rtake_eq_reverse_take_reverse, take_append, take_take, hfew]

/-- **What a flush preserves.** -/
theorem Inv.flush (h : Inv s)
    (hcap : s.batcher.entries.length ≤ maxFreshEntriesPerBatch) :
    Inv (s.log s.batcher.flush) ∧
      (s.log s.batcher.flush).batcher.entries.length < maxFreshEntriesPerBatch := by
  by_cases hne : s.batcher.entries = []
  · have heq : s.batcher.flush = ({ s.batcher with deadlineUs := none }, none) := if_pos hne
    rw [heq]
    exact ⟨⟨h.kept, h.recent, h.packed⟩, by simp [log, hne, maxFreshEntriesPerBatch]⟩
  · rw [log_flush h hne]
    refine ⟨⟨?_, by rw [freshOf_cons], ?_⟩, Nat.zero_lt_succ _⟩
    · rw [freshOf_cons, append_nil, h.kept]
    · intro later b earlier hsplit
      cases later with
      | nil =>
        obtain ⟨rfl, rfl⟩ := List.cons.inj hsplit
        exact packed_encode hne hcap
      | cons _ later => exact h.packed later b earlier (List.cons.inj hsplit).2

/-- **What one call preserves.** -/
theorem Inv.step
    (h : Inv s ∧ s.batcher.entries.length < maxFreshEntriesPerBatch) (op : AckBatchOp) :
    Inv (s.step op) ∧ (s.step op).batcher.entries.length < maxFreshEntriesPerBatch := by
  obtain ⟨h, hlt⟩ := h
  cases op with
  | add entry nowUs =>
    simp only [AckRun.step, AckBatcher.add]
    split_ifs with hfull
    · refine (h.push entry).flush ?_
      simpa [AckRun.push] using hlt
    · exact ⟨⟨(h.push entry).kept, h.recent, h.packed⟩, not_le.1 hfull⟩
  | onTimeout nowUs =>
    simp only [AckRun.step, AckBatcher.onTimeout]
    split_ifs
    · exact h.flush hlt.le
    · exact ⟨⟨h.kept, h.recent, h.packed⟩, hlt⟩
  | flush => exact h.flush hlt.le

end AckRun

open AckRun in
/-- **Batching loses and invents nothing.** Every entry added is new in exactly one batch, in
order, or still waits; the server reads every batch as it was packed; and when a batch with at most
`ACK_OVERLAP_COUNT` new entries is dropped and another one follows, every entry sent is in some
other batch. -/
theorem acks_survive_dropped_batch (ops : List AckBatchOp) :
    freshOf (run step {} ops).sent ++ (run step {} ops).batcher.entries = (run step {} ops).added ∧
      ∀ later b earlier, (run step {} ops).sent = later ++ b :: earlier →
        Packed earlier b ∧
          (later ≠ [] → b.fresh.length ≤ ackOverlapCount →
            ∀ e ∈ freshOf (run step {} ops).sent, ∃ other ∈ later ++ earlier,
                e ∈ other.entries) := by
  have hstart : Inv {} ∧ ([] : List AckEntry).length < maxFreshEntriesPerBatch :=
    ⟨⟨rfl, rfl, by simp⟩, Nat.zero_lt_succ _⟩
  have hinv : Inv (run step {} ops) := (run_inv (I := fun s => Inv s ∧ _)
    (fun s op _ h => Inv.step h op) hstart).1
  refine ⟨hinv.kept, fun later b earlier hsplit => ⟨hinv.packed _ _ _ hsplit, ?_⟩⟩
  intro hfollowed hfew e he
  obtain ⟨newer, next, rfl⟩ := (eq_nil_or_concat later).resolve_left hfollowed
  obtain ⟨first, hfirst, he⟩ : ∃ first ∈ (run step {} ops).sent, e ∈ first.fresh := by
    simpa [freshOf] using he
  by_cases hb : first = b
  · -- the batch that follows repeats all of it
    refine ⟨next, by simp, ?_⟩
    rw [(hinv.packed newer next (b :: earlier) (by simpa using hsplit)).2.2.2, freshOf_cons,
      rtake, drop_append_of_le_length (by simp; omega)]
    exact mem_append_right _ (mem_append_right _ (hb ▸ he))
  · obtain ⟨pre, post, hat⟩ := append_of_mem hfirst
    refine ⟨first, ?_, ?_⟩
    · rw [hsplit] at hfirst
      simpa [hb] using hfirst
    · rw [(hinv.packed _ _ _ hat).2.2.2]
      exact mem_append_left _ he

/-- A number of entries, each added on its own, and a flush. -/
def addsThenFlush (first count : ℕ) : List AckBatchOp :=
  (List.range count).map (fun i => .add ⟨.ofNat (first + i), 0⟩ 0) ++ [.flush]

open AckRun in
theorem acks_survive_dropped_batch_eight :
    ∃ other ∈ (run step {} (addsThenFlush 0 8 ++ addsThenFlush 8 1)).sent.take 1,
      ⟨0, 0⟩ ∈ other.entries :=
  ((acks_survive_dropped_batch (addsThenFlush 0 8 ++ addsThenFlush 8 1)).2 [_] _ [] rfl).2
    (cons_ne_nil _ _) (by decide +kernel) ⟨0, 0⟩ (by decide +kernel)

open AckRun in
/-- **Of nine new entries the batch that follows repeats eight.** -/
theorem dropped_batch_loses_ack :
    (run step {} (addsThenFlush 0 9 ++ addsThenFlush 9 1)).sent.length = 2 ∧
      ⟨0, 0⟩ ∈ freshOf (run step {} (addsThenFlush 0 9 ++ addsThenFlush 9 1)).sent ∧
      ¬ ∃ other ∈ (run step {} (addsThenFlush 0 9 ++ addsThenFlush 9 1)).sent.take 1,
        ⟨0, 0⟩ ∈ other.entries := by
  decide +kernel

end Ghostframe.Client
