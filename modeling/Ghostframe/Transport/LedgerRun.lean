import Ghostframe.Lib.Run
import Ghostframe.Transport.LedgerFacts

/-!
# Runs of the ledger: exactly-once accounting

A run is a list of operations on a fresh ledger; next to the ledger it keeps the
trace of what the operations reported. An eviction is not reported by the code:
its event names the numbers that `record` pushed out of the ledger.

* `Accounts`: the invariant of a session. Every recorded transmission is either
  outstanding or closed, exactly once, and every event is justified by an earlier one;
* `accounts_step`: every operation of a session preserves it;
* `ledger_accounting`: what follows for every run with distinct numbers.
-/

namespace Ghostframe.Transport

open TransmissionLedger Dict List List.Subperm SameBook
open scoped List

/-- An operation on the ledger. -/
inductive LedgerOp
  | record (ws : WireSeq) (at_ : Instant) (tx : Transmission)
  | markDeparted (ws : WireSeq) (at_ : Instant) (departUs : ℕ)
  | resolveAt (ws : WireSeq) (ack : Option (Instant × Duration))
  | detectLossesAt (now : Instant) (timeThreshold : Duration)
  | declareLostByPto (ws : WireSeq)
  | forgetUndeparted (ws : WireSeq)
  | takeUndeparted (ws : WireSeq)
  | forgetOutstanding (ws : WireSeq)
  | noteParityDeparted (groupFirst : WireSeq) (at_ : Instant) (retain : Duration)
  | markProbeBurst (start stop : Instant)
  | nextLossTime (timeThreshold : Duration)
  | scanOutstanding (cursor n maxScan : ℕ)
  | latestOutstandingDeparture
  | discardUndeparted
  | resetSession

/-- What an operation reports. -/
inductive LedgerEvent
  | recorded (ws : WireSeq)
  | departed (ws : WireSeq)
  | live (ws : WireSeq)
  | late (ws : WireSeq)
  | verdict (ws : WireSeq) (reason : LossReason)
  | ptoVerdict (ws : WireSeq)
  | forgotten (ws : WireSeq)
  | evicted (ws : WireSeq)
  deriving DecidableEq

open LedgerEvent

/-- The operations within one session; a reset ends it, and so does dropping what never left. -/
def LedgerOp.InSession : LedgerOp → Prop
  | .discardUndeparted => False
  | .resetSession => False
  | _ => True

instance : DecidablePred LedgerOp.InSession := fun op => by
  cases op <;> unfold LedgerOp.InSession <;> infer_instance

/-- The number an operation records. -/
def LedgerOp.recordedSeq : LedgerOp → Option WireSeq
  | .record ws _ _ => some ws
  | _ => none

namespace LedgerEvent

/-- The transmission an event records. -/
def recordedSeq : LedgerEvent → Option WireSeq
  | .recorded ws => some ws
  | _ => none

/-- The transmission an event closes: acknowledged, judged, forgotten or evicted. -/
def closedSeq : LedgerEvent → Option WireSeq
  | .live ws => some ws
  | .verdict ws _ => some ws
  | .ptoVerdict ws => some ws
  | .forgotten ws => some ws
  | .evicted ws => some ws
  | _ => none

/-- The transmission an event acknowledges in time. -/
def liveSeq : LedgerEvent → Option WireSeq
  | .live ws => some ws
  | _ => none

/-- The transmission an event acknowledges after its verdict. -/
def lateSeq : LedgerEvent → Option WireSeq
  | .late ws => some ws
  | _ => none

/-- The transmission an event declares lost. -/
def lostSeq : LedgerEvent → Option WireSeq
  | .verdict ws _ => some ws
  | .ptoVerdict ws => some ws
  | _ => none

/-- What must have happened before an event. -/
def Justified (pre : List LedgerEvent) : LedgerEvent → Prop
  | .late ws => (∃ reason, .verdict ws reason ∈ pre) ∨ .ptoVerdict ws ∈ pre
  | .verdict ws _ => .departed ws ∈ pre
  | _ => True

end LedgerEvent

/-- One operation: the new ledger and the reported events. -/
def LedgerOp.apply (l : TransmissionLedger) : LedgerOp → TransmissionLedger × List LedgerEvent
  | .record ws at_ tx =>
    let l' := l.record ws at_ tx
    (l', .recorded ws :: ((ws :: l.records.keys).diff l'.records.keys).map .evicted)
  | .markDeparted ws at_ us =>
    ((l.markDeparted ws at_ us).1, if (l.markDeparted ws at_ us).2 then [.departed ws] else [])
  | .resolveAt ws ack =>
    ((l.resolveAt ws ack).1,
      match (l.resolveAt ws ack).2 with
      | some (.live _) => [.live ws]
      | some (.late _ _) => [.late ws]
      | none => [])
  | .detectLossesAt now thr =>
    ((l.detectLossesAt now thr).1, (l.detectLossesAt now thr).2.map fun v => .verdict v.1 v.2.2)
  | .declareLostByPto ws =>
    ((l.declareLostByPto ws).1,
      if (l.declareLostByPto ws).2.isSome then [.ptoVerdict ws] else [])
  | .forgetUndeparted ws =>
    ((l.forgetUndeparted ws).1, if (l.forgetUndeparted ws).2 then [.forgotten ws] else [])
  | .takeUndeparted ws =>
    ((l.takeUndeparted ws).1, if (l.takeUndeparted ws).2.isSome then [.forgotten ws] else [])
  | .forgetOutstanding ws =>
    ((l.forgetOutstanding ws).1, if (l.forgetOutstanding ws).2.isSome then [.forgotten ws] else [])
  | .noteParityDeparted g at_ retain => (l.noteParityDeparted g at_ retain, [])
  | .markProbeBurst start stop => (l.markProbeBurst start stop, [])
  | .nextLossTime thr => ((l.nextLossTime thr).1, [])
  | .scanOutstanding cursor n maxScan => ((l.scanOutstanding cursor n maxScan).1, [])
  | .latestOutstandingDeparture => (l.latestOutstandingDeparture.1, [])
  | .discardUndeparted => (l.discardUndeparted.1, [])
  | .resetSession => (l.resetSession, [])

/-- A ledger with the trace of its reports. -/
structure LedgerRun where
  ledger : TransmissionLedger
  trace : List LedgerEvent

open LedgerRun

namespace LedgerRun

/-- A fresh ledger. -/
def start (capacity : ℕ) : LedgerRun := ⟨.new capacity, []⟩

variable (s : LedgerRun)

/-- One step of a run. -/
def step (op : LedgerOp) : LedgerRun :=
  ⟨(op.apply s.ledger).1, s.trace ++ (op.apply s.ledger).2⟩

/-- The transmissions recorded, closed, acknowledged in time, acknowledged late, declared lost. -/
def recorded : List WireSeq := s.trace.filterMap LedgerEvent.recordedSeq
def closed : List WireSeq := s.trace.filterMap LedgerEvent.closedSeq
def live : List WireSeq := s.trace.filterMap LedgerEvent.liveSeq
def late : List WireSeq := s.trace.filterMap LedgerEvent.lateSeq
def lost : List WireSeq := s.trace.filterMap LedgerEvent.lostSeq

end LedgerRun

/-! ### What one operation does to the accounts -/

/-- The effect of one operation with reports `ev`, as far as the accounts go. -/
structure Effect (l l' : TransmissionLedger) (ev : List LedgerEvent) : Prop where
  closed : (ev.filterMap LedgerEvent.recordedSeq ++ l.records.keys).Perm
    (ev.filterMap LedgerEvent.closedSeq ++ l'.records.keys)
  lates : (ev.filterMap LedgerEvent.lateSeq ++ l'.tombstones.keys).Subperm
    (ev.filterMap LedgerEvent.lostSeq ++ l.tombstones.keys)
  balance : (ev.filterMap LedgerEvent.recordedSeq).length + l.stats.settled + l.records.size =
    (ev.filterMap LedgerEvent.liveSeq).length + l'.stats.settled + l'.records.size
  stamped : ∀ ws r, l'.records.get? ws = some r → r.departed.isSome →
    .departed ws ∈ ev ∨ ∃ r', l.records.get? ws = some r' ∧ r'.departed.isSome
  lateTomb : ∀ ws, .late ws ∈ ev → ws ∈ l.tombstones.keys
  verdictDeparted : ∀ ws reason, .verdict ws reason ∈ ev →
    ∃ r, l.records.get? ws = some r ∧ r.departed.isSome

open Effect

variable {l l' : TransmissionLedger}

theorem Effect.of_sameBook (h : SameBook l l') : Effect l l' [] where
  closed := by simp [h.records]
  lates := by
    rw [h.tombstones]
    exact refl _
  balance := by simp [h.settled, h.records]
  stamped := fun ws r hr hd => .inr ⟨r, h.records ▸ hr, hd⟩
  lateTomb := by simp
  verdictDeparted := by simp

/-- The events of the verdicts of one detection. -/
def verdictEvents (new : List LostTransmission) : List LedgerEvent :=
  new.map fun v => .verdict v.1 v.2.2

theorem Effect.of_verdicts {new : List LostTransmission} (h : Verdicts l l' new)
    (hdep : ∀ v ∈ new, ∃ r, l.records.get? v.1 = some r ∧ r.departed.isSome) :
    Effect l l' (verdictEvents new) := by
  have hrec : (verdictEvents new).filterMap recordedSeq = [] := by
    simp [verdictEvents, recordedSeq]
  have hlate : (verdictEvents new).filterMap lateSeq = [] := by
    simp [verdictEvents, lateSeq]
  have hlive : (verdictEvents new).filterMap liveSeq = [] := by
    simp [verdictEvents, liveSeq]
  have hnamed :
    ∀ f : LedgerEvent → Option WireSeq, (∀ ws reason, f (.verdict ws reason) = some ws) →
      (verdictEvents new).filterMap f = verdictSeqs new := by
    intro f hf
    rw [verdictEvents, filterMap_map, verdictSeqs, ← filterMap_eq_map]
    exact filterMap_congr fun v _ => hf v.1 v.2.2
  have hclosed := hnamed closedSeq fun _ _ => rfl
  have hlost := hnamed lostSeq fun _ _ => rfl
  have hlen : l.records.size = new.length + l'.records.size := by
    have := h.keys.length_eq
    simpa [verdictSeqs, size] using this
  refine ⟨?_, ?_, ?_, fun ws r hr hd => .inr ⟨r, ((h.records ws r).1 hr).1, hd⟩, ?_, ?_⟩
  · rw [hrec, hclosed]
    exact h.keys
  · rw [hlate, hlost]
    exact h.tombKeys
  · rw [hrec, hlive, h.settled, hlen, length_nil]
    omega
  · simp [verdictEvents]
  · intro ws reason hmem
    obtain ⟨v, hv, heq⟩ := mem_map.1 hmem
    injection heq with hws
    exact hws ▸ hdep v hv

theorem Effect.of_ptoVerdict {ws : WireSeq} {tx : Transmission}
    (h : Verdicts l l' [(ws, tx, .pto)]) : Effect l l' [.ptoVerdict ws] where
  closed := h.keys
  lates := h.tombKeys
  balance := by
    have hlen := h.keys.length_eq
    have hset := h.settled
    simp only [verdictSeqs, map_cons, map_nil, cons_append, nil_append,
      length_cons, length_nil] at hlen hset
    simp only [recordedSeq, liveSeq, filterMap_cons,
      filterMap_nil, length_nil, size]
    omega
  stamped := fun ws r hr hd => .inr ⟨r, ((h.records ws r).1 hr).1, hd⟩
  lateTomb := by simp
  verdictDeparted := by simp

theorem Effect.of_forgets {ws : WireSeq} (h : Forgets l l' ws) :
    Effect l l' [.forgotten ws] := by
  obtain ⟨r, hr⟩ := h.outstanding
  have hkeys := keys_perm_cons_erase hr
  refine ⟨?_, ?_, ?_, fun ws' r' hr' hd => .inr ⟨r', ?_, hd⟩, by simp, by simp⟩
  · rw [h.records]
    exact hkeys
  · rw [h.tombstones]
    exact refl _
  · have hlen := hkeys.length_eq
    simp only [recordedSeq, liveSeq, filterMap_cons,
      filterMap_nil, length_nil, h.settled, h.records, size]
    simp only [length_cons] at hlen
    omega
  · rw [h.records] at hr'
    exact (get?_of_get?_erase hr').2

variable (s : LedgerRun) (l : TransmissionLedger) (ws : WireSeq) (op : LedgerOp)

theorem Effect.record (at_ : Instant) (tx : Transmission) :
    Effect l (l.record ws at_ tx) (LedgerOp.apply l (.record ws at_ tx)).2 := by
  set out := (ws :: l.records.keys).diff (l.record ws at_ tx).records.keys
  have hev : (LedgerOp.apply l (.record ws at_ tx)).2 = .recorded ws :: out.map .evicted := rfl
  have hrec : (out.map evicted).filterMap recordedSeq = [] := by
    simp [recordedSeq]
  have hclosed : (out.map evicted).filterMap closedSeq = out := by
    simp [closedSeq, filterMap_map, Function.comp_def]
  have hlive : (out.map evicted).filterMap liveSeq = [] := by
    simp [liveSeq]
  have hlate : (out.map evicted).filterMap lateSeq = [] := by
    simp [lateSeq]
  have hlost : (out.map evicted).filterMap lostSeq = [] := by
    simp [lostSeq]
  have hperm : (out ++ (l.record ws at_ tx).records.keys).Perm (ws :: l.records.keys) :=
    perm_append_comm.trans
      (subperm_append_diff_self_of_count_le fun x _ => (l.record_keys ws at_ tx).count_le x)
  rw [hev]
  refine ⟨?_, ?_, ?_, fun ws' r hr hd => .inr ?_, by simp, by simp⟩
  · simp only [filterMap_cons, recordedSeq, closedSeq, hrec, hclosed]
    exact hperm.symm
  · simp only [filterMap_cons, lateSeq, lostSeq, hlate, hlost,
      (l.record_evicts ws at_ tx).tombstones, putRecord_tombstones]
    exact refl _
  · simp only [filterMap_cons, recordedSeq, liveSeq, hrec, hlive,
      length_cons, length_nil]
    have := l.record_balance ws at_ tx
    omega
  · rcases l.record_get? hr with ⟨-, rfl⟩ | ⟨-, hold⟩
    · simp [freshRecord] at hd
    · exact ⟨r, hold, hd⟩

theorem Effect.markDeparted (at_ : Instant) (us : ℕ) :
    Effect l (LedgerOp.apply l (.markDeparted ws at_ us)).1
      (LedgerOp.apply l (.markDeparted ws at_ us)).2 := by
  simp only [LedgerOp.apply]
  rcases l.markDeparted_spec ws at_ us with ⟨hf, hl⟩ | ⟨ht, r, hr, -, hrec, htomb, -, -, hset⟩
  · rw [hf, hl]
    exact of_sameBook (refl l)
  · rw [ht]
    have hkeys := keys_insert_perm { r with
      departed := some at_
      tx := { r.tx with departUs := some us, depIdx := some l.nextDepIdx } } hr
    refine ⟨?_, ?_, ?_, fun ws' r' hr' hd => ?_, by simp, by simp⟩
    · rw [hrec]
      exact hkeys.symm
    · rw [htomb]
      exact refl _
    · have hlen : (l.markDeparted ws at_ us).1.records.size = l.records.size := by
        rw [hrec]
        exact hkeys.length_eq
      rw [hset, hlen]
      rfl
    · by_cases hws : ws' = ws
      · exact .inl (by simp [hws])
      · rw [hrec, get?_insert_ne _ _ hws] at hr'
        exact .inr ⟨r', hr', hd⟩

theorem Effect.resolveAt (ack : Option (Instant × Duration)) :
    Effect l (LedgerOp.apply l (.resolveAt ws ack)).1 (LedgerOp.apply l (.resolveAt ws ack)).2 := by
  simp only [LedgerOp.apply, TransmissionLedger.resolveAt]
  cases hr : l.records.get? ws with
  | some r =>
    have hkeys := keys_perm_cons_erase hr
    refine ⟨?_, ?_, ?_, fun ws' r' hr' hd => .inr ⟨r', ?_, hd⟩, by simp, by simp⟩
    · rw [resolveLive_records]
      exact hkeys
    · rw [resolveLive_tombstones]
      exact refl _
    · have hlen := hkeys.length_eq
      rw [(l.resolveLive_resolves ws r ack).settled, resolveLive_records]
      simp only [recordedSeq, liveSeq, filterMap_cons,
        filterMap_nil, length_nil, length_cons, size] at hlen ⊢
      omega
    · rw [resolveLive_records] at hr'
      exact (get?_of_get?_erase hr').2
  | none =>
    cases ht : l.tombstones.get? ws with
    | none => exact of_sameBook ⟨rfl, rfl, rfl, rfl, rfl⟩
    | some t =>
      refine ⟨?_, ?_, ?_, fun ws' r' hr' hd => .inr ⟨r', ?_, hd⟩, fun ws' hws' => ?_, by simp⟩
      · rw [resolveLate_records]
        exact List.Perm.refl _
      · rw [resolveLate_tombstones]
        exact (keys_perm_cons_erase ht).symm.subperm
      · rw [(l.resolveLate_resolves ws t ack).settled, resolveLate_records]
        rfl
      · rwa [resolveLate_records] at hr'
      · have hws : ws' = ws := by simpa using hws'
        exact hws ▸ mem_keys_of_get? ht

theorem Effect.takeUndeparted :
    Effect l (l.takeUndeparted ws).1
      (if (l.takeUndeparted ws).2.isSome then [.forgotten ws] else []) := by
  rcases l.takeUndeparted_spec ws with ⟨hn, hl⟩ | ⟨hs, hf⟩
  · rw [hn, hl]
    exact of_sameBook (refl l)
  · rw [hs]
    exact of_forgets hf

/-- Every operation of a session has an effect of this form. -/
theorem LedgerOp.effect (hop : op.InSession) (l : TransmissionLedger) :
    Effect l (op.apply l).1 (op.apply l).2 := by
  cases op with
  | record ws at_ tx => exact Effect.record l ws at_ tx
  | markDeparted ws at_ us => exact Effect.markDeparted l ws at_ us
  | resolveAt ws ack => exact Effect.resolveAt l ws ack
  | detectLossesAt now thr =>
    obtain ⟨hv, hw⟩ := l.detectLossesAt_verdicts now thr
    exact of_verdicts hv fun v hmem => (hw v hmem).2
  | declareLostByPto ws =>
    simp only [LedgerOp.apply]
    rcases l.declareLostByPto_verdicts ws with ⟨hn, hl⟩ | ⟨tx, hs, hv⟩
    · rw [hn, hl]
      exact of_sameBook (refl l)
    · rw [hs]
      exact of_ptoVerdict hv
  | forgetUndeparted ws | takeUndeparted ws => exact Effect.takeUndeparted l ws
  | forgetOutstanding ws =>
    simp only [LedgerOp.apply]
    rcases l.forgetOutstanding_spec ws with ⟨hn, hl⟩ | ⟨hs, hf⟩
    · rw [hn, hl]
      exact of_sameBook (refl l)
    · rw [hs]
      exact of_forgets hf
  | noteParityDeparted g at_ retain =>
    exact of_sameBook (l.noteParityDeparted_aside g at_ retain).sameBook
  | markProbeBurst start stop => exact of_sameBook (l.markProbeBurst_aside start stop).sameBook
  | nextLossTime thr => exact of_sameBook (l.nextLossTime_sameBook thr)
  | scanOutstanding cursor n maxScan =>
    exact of_sameBook (l.scanOutstanding_sameBook cursor n maxScan)
  | latestOutstandingDeparture => exact of_sameBook l.trimDeparted_sameBook
  | discardUndeparted => exact hop.elim
  | resetSession => exact hop.elim

/-- A verdict closes the transmission it names. -/
theorem LedgerRun.lost_sublist_closed : s.lost.Sublist s.closed := by
  unfold lost closed
  induction s.trace with
  | nil => exact List.Sublist.slnil
  | cons e trace ih =>
    cases e with
    | verdict ws reason => exact ih.cons_cons ws
    | ptoVerdict ws => exact ih.cons_cons ws
    | live ws => exact ih.cons ws
    | forgotten ws => exact ih.cons ws
    | evicted ws => exact ih.cons ws
    | recorded ws => exact ih
    | departed ws => exact ih
    | late ws => exact ih

/-! ### The accounts of a session -/

/-- The invariant of a session. -/
structure Accounts (s : LedgerRun) : Prop where
  closed : s.recorded.Perm (s.closed ++ s.ledger.records.keys)
  lates : (s.late ++ s.ledger.tombstones.keys).Subperm s.lost
  balance : s.recorded.length =
    s.live.length + s.ledger.stats.settled + s.ledger.records.size
  stamped : ∀ ws r, s.ledger.records.get? ws = some r → r.departed.isSome → .departed ws ∈ s.trace
  justified : ∀ pre e post, s.trace = pre ++ e :: post → e.Justified pre

theorem accounts_start (capacity : ℕ) : Accounts (start capacity) where
  closed := List.Perm.refl _
  lates := List.Subperm.refl _
  balance := rfl
  stamped := by
    intro ws r hr
    exact absurd hr (by simp [start, TransmissionLedger.new])
  justified := by
    intro pre e post h
    simp [start] at h

theorem LedgerEvent.Justified.mono {pre pre' : List LedgerEvent} {e : LedgerEvent}
    (h : e.Justified pre) (hsub : pre ⊆ pre') : e.Justified pre' := by
  cases e with
  | late ws =>
    rcases h with ⟨reason, h⟩ | h
    · exact .inl ⟨reason, hsub h⟩
    · exact .inr (hsub h)
  | verdict ws reason => exact hsub h
  | _ => trivial

/-- Events appended to a justified trace are justified when the trace justifies each of them. -/
theorem justified_append {trace ev : List LedgerEvent}
    (h : ∀ pre e post, trace = pre ++ e :: post → e.Justified pre)
    (hev : ∀ e ∈ ev, e.Justified trace) :
    ∀ pre e post, trace ++ ev = pre ++ e :: post → e.Justified pre := by
  intro pre e post heq
  rcases append_eq_append_iff.1 heq with ⟨mid, hpre, hmid⟩ | ⟨mid, htrace, hmid⟩
  · exact (hev e (by simp [hmid])).mono (by simp [hpre])
  · cases mid with
    | nil =>
      have hmem : e ∈ ev := by
        rw [nil_append] at hmid
        simp [← hmid]
      exact (hev e hmem).mono (by simp [htrace])
    | cons e' mid =>
      injection hmid with he hpost
      exact he ▸ h pre e' mid htrace

/-- Every operation of a session keeps the accounts. -/
theorem accounts_step (hop : op.InSession) (h : Accounts s) : Accounts (s.step op) := by
  have hf := op.effect hop s.ledger
  set ev := (op.apply s.ledger).2
  have hstep : s.step op = ⟨(op.apply s.ledger).1, s.trace ++ ev⟩ := rfl
  rw [hstep]
  refine ⟨?_, ?_, ?_, fun ws r hr hd => ?_, justified_append h.justified fun e he => ?_⟩
  · -- recorded so far, then by this operation, is closed or outstanding
    simp only [LedgerRun.recorded, LedgerRun.closed, List.filterMap_append]
    calc s.recorded ++ ev.filterMap LedgerEvent.recordedSeq
      _ ~ (s.closed ++ s.ledger.records.keys) ++ ev.filterMap LedgerEvent.recordedSeq :=
        h.closed.append_right _
      _ ~ s.closed ++ (ev.filterMap LedgerEvent.recordedSeq ++ s.ledger.records.keys) := by
        rw [List.append_assoc]
        exact List.perm_append_comm.append_left _
      _ ~ s.closed ++ (ev.filterMap LedgerEvent.closedSeq ++ (op.apply s.ledger).1.records.keys) :=
        hf.closed.append_left _
      _ ~ _ := by rw [List.append_assoc]; exact List.Perm.refl _
  · simp only [LedgerRun.late, LedgerRun.lost, List.filterMap_append]
    have h1 : (s.late ++ (ev.filterMap LedgerEvent.lateSeq ++
        (op.apply s.ledger).1.tombstones.keys)).Subperm
        (s.late ++ (ev.filterMap LedgerEvent.lostSeq ++ s.ledger.tombstones.keys)) :=
      (List.Subperm.refl _).append hf.lates
    have h2 : (s.late ++ (ev.filterMap LedgerEvent.lostSeq ++ s.ledger.tombstones.keys)).Perm
        ((s.late ++ s.ledger.tombstones.keys) ++ ev.filterMap LedgerEvent.lostSeq) := by
      rw [List.append_assoc]
      exact List.perm_append_comm.append_left _
    rw [List.append_assoc]
    exact (h1.trans h2.subperm).trans (h.lates.append (List.Subperm.refl _))
  · have hb := h.balance
    have hb' := hf.balance
    simp only [LedgerRun.recorded, LedgerRun.live, List.filterMap_append,
      List.length_append] at hb ⊢
    omega
  · rcases hf.stamped ws r hr hd with hnew | ⟨r', hr', hd'⟩
    · exact List.mem_append_right _ hnew
    · exact List.mem_append_left _ (h.stamped ws r' hr' hd')
  · cases e with
    | late ws =>
      have hmem : ws ∈ s.lost :=
        h.lates.subset (List.mem_append_right _ (hf.lateTomb ws he))
      obtain ⟨e', he', hseq⟩ := List.mem_filterMap.1 hmem
      cases e' with
      | verdict ws' reason =>
        obtain rfl : ws' = ws := by simpa [LedgerEvent.lostSeq] using hseq
        exact .inl ⟨reason, he'⟩
      | ptoVerdict ws' =>
        obtain rfl : ws' = ws := by simpa [LedgerEvent.lostSeq] using hseq
        exact .inr he'
      | _ => simp [LedgerEvent.lostSeq] at hseq
    | verdict ws reason =>
      obtain ⟨r, hr, hd⟩ := hf.verdictDeparted ws reason he
      exact h.stamped ws r hr hd
    | _ => trivial

theorem step_recorded : (s.step op).recorded = s.recorded ++ op.recordedSeq.toList := by
  have hev : (op.apply s.ledger).2.filterMap LedgerEvent.recordedSeq = op.recordedSeq.toList := by
    cases op
    case record => simp [LedgerOp.apply, LedgerOp.recordedSeq, LedgerEvent.recordedSeq]
    case detectLossesAt => simp [LedgerOp.apply, LedgerOp.recordedSeq, LedgerEvent.recordedSeq]
    case resolveAt =>
      simp only [LedgerOp.apply, LedgerOp.recordedSeq]
      split <;> rfl
    -- the others report nothing, or one event that records nothing
    all_goals
      simp only [LedgerOp.apply, LedgerOp.recordedSeq]
      first
        | rfl
        | (split_ifs <;> rfl)
  rw [LedgerRun.recorded, LedgerRun.step, List.filterMap_append, hev]
  rfl

theorem run_recorded (ops : List LedgerOp) (s : LedgerRun) :
    (run step s ops).recorded = s.recorded ++ ops.filterMap LedgerOp.recordedSeq := by
  induction ops generalizing s with
  | nil => simp
  | cons op ops ih =>
    rw [run_cons, ih, step_recorded, append_assoc]
    cases h : op.recordedSeq <;> simp [h]

/-- **Exactly-once accounting.** In every session with distinct numbers, whatever the order of the
operations: the recorded transmissions are those acknowledged in time, judged lost, forgotten,
evicted or still outstanding; each is closed at most once; a late resolution comes after a verdict
on the same number, at most once; and detection never names a transmission that did not depart. -/
theorem ledger_accounting (capacity : ℕ) (ops : List LedgerOp)
    (hsession : ∀ op ∈ ops, op.InSession)
    (hdistinct : (ops.filterMap LedgerOp.recordedSeq).Nodup) :
    let s := run LedgerRun.step (LedgerRun.start capacity) ops
    (ops.filterMap LedgerOp.recordedSeq).length =
        s.live.length
          + (s.ledger.stats.lostPacketThreshold + s.ledger.stats.lostTimeThreshold
            + s.ledger.stats.lostPto)
          + s.ledger.stats.forgottenBeforeDeparture + s.ledger.stats.forgottenWithoutVerdict
          + s.ledger.stats.capacityEvictions + s.ledger.len ∧
      s.closed.Nodup ∧ s.late.Nodup ∧
      (∀ pre post ws, s.trace = pre ++ .late ws :: post →
        (∃ reason, .verdict ws reason ∈ pre) ∨ .ptoVerdict ws ∈ pre) ∧
      (∀ pre post ws reason, s.trace = pre ++ .verdict ws reason :: post →
        .departed ws ∈ pre) := by
  intro s
  have h : Accounts s := run_inv (fun t op hop => accounts_step t op (hsession op hop))
    (accounts_start capacity)
  have hrec : s.recorded = ops.filterMap LedgerOp.recordedSeq := run_recorded ops _
  have hnodup : (s.closed ++ s.ledger.records.keys).Nodup :=
    h.closed.nodup_iff.1 (hrec ▸ hdistinct)
  have hclosed : s.closed.Nodup := (nodup_append.1 hnodup).1
  refine ⟨?_, hclosed, ?_, fun pre post ws heq => h.justified pre _ post heq,
    fun pre post ws reason heq => h.justified pre _ post heq⟩
  · have hb := h.balance
    rw [hrec] at hb
    simp only [LedgerStats.settled, TransmissionLedger.len] at hb ⊢
    omega
  · -- a late resolution takes a verdict, and a number has at most one verdict
    have hsub := h.lates.trans s.lost_sublist_closed.subperm
    obtain ⟨seqs, hperm, hincl⟩ := hsub
    exact (nodup_append.1 (hperm.nodup_iff.1 (hincl.nodup hclosed))).1

/-- A transmission of one tile pass. -/
def sampleTx (pass : UInt8) : Transmission :=
  { emitUs := 0, wireBytes := 100, content := .tile ⟨0, 0, 0, pass⟩, departUs := none,
    depIdx := none }

/-- A session with every way of closing a transmission, at a capacity of two. -/
def sampleOps : List LedgerOp :=
  [.record 0 0 (sampleTx 0), .record 1 0 (sampleTx 1), .markDeparted 0 5 5, .markDeparted 1 5 5,
    .resolveAt 1 none, .declareLostByPto 0, .resolveAt 0 none, .record 2 9 (sampleTx 2),
    .takeUndeparted 2, .record 3 9 (sampleTx 3), .record 4 9 (sampleTx 4),
    .record 5 9 (sampleTx 5)]

theorem ledger_accounting_sample :
    (run LedgerRun.step (LedgerRun.start 2) sampleOps).trace =
        [.recorded 0, .recorded 1, .departed 0, .departed 1, .live 1, .ptoVerdict 0, .late 0,
          .recorded 2, .forgotten 2, .recorded 3, .recorded 4, .recorded 5, .evicted 3] ∧
      (run LedgerRun.step (LedgerRun.start 2) sampleOps).closed.Nodup :=
  ⟨by decide +kernel, (ledger_accounting 2 sampleOps (by decide) (by decide)).2.1⟩

end Ghostframe.Transport
