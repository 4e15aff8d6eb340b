import Ghostframe.Lib.MarkRing
import Ghostframe.Transport.LedgerFrames

/-!
# The evidence behind the packet threshold

Packet-threshold verdicts are numbered through a session, and `spuriousBits` is a
ring of marks over the last 64 of them. Next to the ledger a run keeps what the
ledger only summarises: the packet verdicts in order, and the numbers of those
contradicted by a late acknowledgement since the evidence was last cleared.

* `Evidence`: the invariant; every tombstone names the number of its verdict, and the
  bits are the contradicted verdicts in the window;
* `packetThreshold_adapts`: what follows for every run.
-/

namespace Ghostframe.Transport

open List

namespace TransmissionLedger

/-- The packet-threshold verdict that an acknowledgement of `ws` contradicts: it is late, and no
datagram rebuilt from parity can explain it. -/
def contradicts (l : TransmissionLedger) (ws : WireSeq) (ack : Option (Instant × Duration)) :
    Option ℕ :=
  match (l.resolveAt ws ack).2 with
  | some (.late _ false) => (l.tombstones.get? ws).bind (·.packetVerdictNo)
  | _ => none

/-- The contradicted verdicts among the last 64. -/
def markedOf (verdicts : ℕ) (contradicted : Finset ℕ) : Finset ℕ :=
  contradicted.filter fun n => InWindow adaptWindow verdicts n

/-- Enough verdicts, and more than a tenth of them contradicted. -/
def Overmarked (verdicts : ℕ) (contradicted : Finset ℕ) : Prop :=
  adaptMinVerdicts ≤ min verdicts adaptWindow ∧
    min verdicts adaptWindow * adaptSpuriousPercent < (markedOf verdicts contradicted).card * 100

instance (verdicts : ℕ) (contradicted : Finset ℕ) : Decidable (Overmarked verdicts contradicted) :=
  inferInstanceAs (Decidable (_ ∧ _))

/-- The contradicted verdicts after one more: too many of them clear the evidence. -/
def contradictedWith (verdicts : ℕ) (contradicted : Finset ℕ) (n : ℕ) : Finset ℕ :=
  if InWindow adaptWindow verdicts n ∧ Overmarked verdicts (insert n contradicted) then ∅
  else insert n contradicted

/-- The packet verdicts of a list of reports. -/
def packetSeqs (lost : List LostTransmission) : List WireSeq :=
  (lost.filter fun v => decide (v.2.2 = .packet)).map Prod.fst

/-- The bits show the contradicted verdicts, and every tombstone knows the number of its own. -/
structure Evidence (l : TransmissionLedger) (numbered : List WireSeq) (contradicted : Finset ℕ) :
    Prop where
  marks : Marks l.spuriousBits l.verdicts contradicted
  count : numbered.length = l.verdicts
  issued : ∀ n ∈ contradicted, 1 ≤ n ∧ n ≤ l.verdicts
  buried : ∀ ws t n, l.tombstones.get? ws = some t → t.packetVerdictNo = some n →
    1 ≤ n ∧ numbered[n - 1]? = some ws
  low : kPktInitial ≤ l.kPkt
  high : l.kPkt ≤ kPktMax

variable {l l' : TransmissionLedger} {numbered : List WireSeq} {contradicted : Finset ℕ}

theorem evidence_of_empty (hverdicts : l.verdicts = 0) (hbits : l.spuriousBits = 0#64)
    (htombs : l.tombstones = Dict.empty) (hk : l.kPkt = kPktInitial) : Evidence l [] ∅ where
  marks := by
    rw [hbits]
    exact marks_zero _
  count := hverdicts.symm
  issued := by simp
  buried := by simp [htombs]
  low := hk.ge
  high := by
    rw [hk]
    decide

/-- What keeps the verdicts, the bits and the threshold, and adds no tombstone, keeps the
evidence. -/
theorem Evidence.congr (h : Evidence l numbered contradicted)
    (hverdicts : l'.verdicts = l.verdicts) (hbits : l'.spuriousBits = l.spuriousBits)
    (hk : l'.kPkt = l.kPkt)
    (htombs : ∀ ws t, l'.tombstones.get? ws = some t → l.tombstones.get? ws = some t) :
    Evidence l' numbered contradicted where
  marks := by
    rw [hbits, hverdicts]
    exact h.marks
  count := hverdicts ▸ h.count
  issued := hverdicts ▸ h.issued
  buried := fun ws t n ht => h.buried ws t n (htombs ws t ht)
  low := hk ▸ h.low
  high := hk ▸ h.high

theorem Evidence.untouched (h : Evidence l numbered contradicted) (hu : Untouched l l') :
    Evidence l' numbered contradicted :=
  h.congr hu.verdicts hu.spuriousBits hu.kPkt fun _ _ ht => hu.tombstones ▸ ht

/-- A tombstone's verdict number was given out in this session: the distance to the newest verdict
does not underflow. -/
theorem Evidence.le_verdicts (h : Evidence l numbered contradicted) {ws : WireSeq} {t : Tombstone}
    {n : ℕ} (ht : l.tombstones.get? ws = some t) (hn : t.packetVerdictNo = some n) :
    n ≤ l.verdicts := by
  obtain ⟨hpos, hget⟩ := h.buried ws t n ht hn
  obtain ⟨hlt, -⟩ := List.getElem?_eq_some_iff.1 hget
  have := h.count
  omega

/-! ### A contradicted verdict -/

/-- What `note_spurious` does, in terms of the contradicted verdicts. -/
theorem Evidence.noteSpurious (h : Evidence l numbered contradicted) {n : ℕ} (hpos : 1 ≤ n)
    (hle : n ≤ l.verdicts) :
    Evidence (l.noteSpurious n) numbered (contradictedWith l.verdicts contradicted n) ∧
      l.kPkt ≤ (l.noteSpurious n).kPkt ∧
      (l.kPkt < (l.noteSpurious n).kPkt → Overmarked l.verdicts (insert n contradicted)) := by
  have hissued : ∀ m ∈ insert n contradicted, 1 ≤ m ∧ m ≤ l.verdicts := by
    intro m hm
    rcases Finset.mem_insert.1 hm with rfl | hm
    · exact ⟨hpos, hle⟩
    · exact h.issued m hm
  unfold TransmissionLedger.noteSpurious contradictedWith
  by_cases hout : l.verdicts - n ≥ adaptWindow
  · have hwin : ¬ InWindow adaptWindow l.verdicts n := fun hw => by
      have := hw.2
      omega
    rw [if_pos hout, if_neg fun hc => hwin hc.1]
    exact ⟨{ h with marks := h.marks.insert_outside hwin, issued := hissued }, le_refl _,
      fun hlt => absurd hlt (lt_irrefl _)⟩
  · have hwin : InWindow adaptWindow l.verdicts n := ⟨hle, by omega⟩
    have hmarks : Marks (l.spuriousBits ||| (1#64 <<< (n % adaptWindow))) l.verdicts
        (insert n contradicted) := h.marks.mark hwin
    have hcount : countOnes (l.spuriousBits ||| (1#64 <<< (n % adaptWindow))) =
        (markedOf l.verdicts (insert n contradicted)).card := hmarks.countP_eq
    -- the count the code compares is the number of contradicted verdicts in the window
    have hover : (adaptMinVerdicts ≤ min l.verdicts adaptWindow ∧
        countOnes (l.spuriousBits ||| (1#64 <<< (n % adaptWindow))) * 100 >
          min l.verdicts adaptWindow * adaptSpuriousPercent) ↔
        Overmarked l.verdicts (insert n contradicted) := by
      rw [hcount]
      exact Iff.rfl
    rw [if_neg hout]
    simp only [ge_iff_le, hover, hwin, true_and]
    by_cases hfull : Overmarked l.verdicts (insert n contradicted)
    · have hclear : Marks 0#64 l.verdicts ∅ := marks_zero _
      split_ifs with hraise
      · refine ⟨⟨hclear, h.count, by simp, h.buried, h.low.trans (Nat.le_succ _), hraise.2⟩, ?_, ?_⟩
        · exact Nat.le_succ _
        · exact fun _ => hfull
      · exact ⟨⟨hclear, h.count, by simp, h.buried, h.low, h.high⟩, le_refl _, fun _ => hfull⟩
    · rw [if_neg hfull, if_neg hfull]
      exact ⟨⟨hmarks, h.count, hissued, h.buried, h.low, h.high⟩, le_refl _,
        fun hlt => absurd hlt (lt_irrefl _)⟩

/-! ### New verdicts -/

/-- From `l` to `l'` the packet verdicts `new` were given, and none was contradicted. -/
structure Judges (l l' : TransmissionLedger) (new : List WireSeq) : Prop where
  kPkt : l'.kPkt = l.kPkt
  evidence : ∀ {numbered contradicted}, Evidence l numbered contradicted →
    Evidence l' (numbered ++ new) contradicted

theorem Unjudged.judges (h : Unjudged l l') : Judges l l' [] where
  kPkt := h.kPkt
  evidence := fun he => by
    rw [append_nil]
    exact he.congr h.verdicts h.spuriousBits h.kPkt fun _ _ ht => h.tombstones ▸ ht

theorem Untouched.judges (h : Untouched l l') : Judges l l' [] := h.unjudged.judges

theorem Judges.trans {l'' : TransmissionLedger} {new new' : List WireSeq} (h : Judges l l' new)
    (h' : Judges l' l'' new') : Judges l l'' (new ++ new') where
  kPkt := h'.kPkt.trans h.kPkt
  evidence := fun he => by
    rw [← append_assoc]
    exact h'.evidence (h.evidence he)

variable (l) (ws : WireSeq)

theorem entomb_evidence (t : Tombstone) :
    (l.entomb ws t).verdicts = l.verdicts ∧ (l.entomb ws t).spuriousBits = l.spuriousBits ∧
      (l.entomb ws t).kPkt = l.kPkt := by
  obtain ⟨tombs, order, stats, heq, -⟩ := evictTombstones_eq (l.tombstoneOrder ++ [ws])
    { l with tombstones := l.tombstones.insert ws t }
  rw [entomb, heq]
  exact ⟨rfl, rfl, rfl⟩

/-- Only a packet verdict takes a number; it takes over the bit of the verdict that leaves the
window. -/
theorem entomb_judges (t : Tombstone) (reason : LossReason)
    (hno : t.packetVerdictNo = (l.numberVerdict reason).2) :
    Judges l ((l.numberVerdict reason).1.entomb ws t) (packetSeqs [(ws, t.tx, reason)]) := by
  obtain ⟨hverdicts, hbits, hk⟩ := (l.numberVerdict reason).1.entomb_evidence ws t
  have htombs := ((l.numberVerdict reason).1.entomb_spec ws t).2.2.2.1
  generalize (l.numberVerdict reason).1.entomb ws t = l' at *
  unfold numberVerdict at hno hverdicts hbits hk htombs
  by_cases hreason : reason = .packet
  · rw [if_pos hreason] at hno hverdicts hbits hk htombs
    have hnew : packetSeqs [(ws, t.tx, reason)] = [ws] := by simp [packetSeqs, hreason]
    rw [hnew]
    refine ⟨hk, fun {numbered contradicted} he => ?_⟩
    refine ⟨?_, ?_, ?_, ?_, hk ▸ he.low, hk ▸ he.high⟩
    · rw [hbits, hverdicts]
      exact he.marks.next fun n hn => (he.issued n hn).2
    · rw [length_append, he.count, hverdicts]
      rfl
    · intro n hn
      rw [hverdicts]
      exact ⟨(he.issued n hn).1, (he.issued n hn).2.trans (Nat.le_succ _)⟩
    · intro ws' t' n ht hn
      rcases htombs ws' t' ht with ⟨rfl, rfl⟩ | hold
      · obtain rfl := Option.some.inj (hno.symm.trans hn)
        refine ⟨Nat.le_add_left _ _, ?_⟩
        rw [Nat.add_sub_cancel, ← he.count, getElem?_concat_length]
      · obtain ⟨hpos, hget⟩ := he.buried ws' t' n hold hn
        exact ⟨hpos, (List.getElem?_append_left (List.getElem?_eq_some_iff.1 hget).1).trans hget⟩
  · rw [if_neg hreason] at hno hverdicts hbits hk htombs
    have hnone : packetSeqs [(ws, t.tx, reason)] = [] := by simp [packetSeqs, hreason]
    rw [hnone]
    refine ⟨hk, fun {numbered contradicted} he => ?_⟩
    rw [append_nil]
    refine ⟨?_, hverdicts ▸ he.count, hverdicts ▸ he.issued, ?_, hk ▸ he.low, hk ▸ he.high⟩
    · rw [hbits, hverdicts]
      exact he.marks
    · intro ws' t' n ht hn
      rcases htombs ws' t' ht with ⟨rfl, rfl⟩ | hold
      · cases hno.symm.trans hn
      · exact he.buried ws' t' n hold hn

theorem bury_judges (r : Record) (reason : LossReason) :
    Judges l (l.bury ws r reason) (packetSeqs [(ws, r.tx, reason)]) :=
  ((l.erase_leave_unjudged ws r).trans (untouched_stats _ _).unjudged).judges.trans
    ((l.strike ws r reason).entomb_judges ws (l.tombstoneOf r reason _) reason rfl)

theorem packetSeqs_append (a b : List LostTransmission) :
    packetSeqs (a ++ b) = packetSeqs a ++ packetSeqs b := by
  simp [packetSeqs]

theorem declareLost_judges (reason : LossReason) (lost : List LostTransmission) :
    ∃ new, (l.declareLost ws reason lost).2 = lost ++ new ∧
      Judges l (l.declareLost ws reason lost).1 (packetSeqs new) ∧ ∀ v ∈ new, v.2.2 = reason := by
  unfold declareLost
  cases l.records.get? ws with
  | none => exact ⟨[], (append_nil _).symm, (Untouched.refl l).judges, by simp⟩
  | some r => exact ⟨[(ws, r.tx, reason)], rfl, l.bury_judges ws r reason, by simp⟩

/-- What the walk adds to the reports are the verdicts it gave. -/
theorem detectWalk_judges (p : DetectParams) (rest passed : List WireSeq) (stepped : ℕ)
    (lost : List LostTransmission) :
    ∃ new, (detectWalk p passed rest stepped l lost).2 = lost ++ new ∧
      Judges l (detectWalk p passed rest stepped l lost).1 (packetSeqs new) := by
  fun_induction detectWalk p passed rest stepped l lost with
  | case1 | case3 => exact ⟨[], (append_nil _).symm, (untouched_departedOrder _ _).judges⟩
  | case2 _ _ _ _ _ _ _ ih => exact ih
  | case4 _ _ _ _ _ _ _ ih => exact ih
  | case5 passed ws rest stepped l lost reason branch _ l1 l2 lost2 hlost ih =>
    obtain ⟨new, hnew, hj, -⟩ := l1.declareLost_judges ws reason lost
    rw [hlost] at hnew hj
    obtain ⟨more, hmore, hj'⟩ := ih
    refine ⟨new ++ more, ?_, ?_⟩
    · rw [hmore, ← append_assoc, ← hnew]
    · rw [packetSeqs_append]
      exact (l.untouched_stats _).judges.trans (hj.trans hj')

theorem detectLossesAt_judges (now : Instant) (thr : Duration) :
    Judges l (l.detectLossesAt now thr).1 (packetSeqs (l.detectLossesAt now thr).2) := by
  have hstart := (l.noteThreshold_aside thr).untouched.judges
  unfold detectLossesAt
  cases l.largestAcked with
  | none => exact hstart
  | some largestIdx =>
    obtain ⟨new, hnew, hj⟩ := (l.noteThreshold thr).detectWalk_judges
      ((l.noteThreshold thr).detectParams now thr largestIdx)
      (l.noteThreshold thr).departedOrder [] 0 []
    dsimp only
    generalize detectWalk _ _ _ _ _ _ = walked at hnew hj ⊢
    rw [hnew]
    have hend := (walked.1.noteRecovery_aside now thr new).untouched.unjudged.trans
      (compactIfSparse_unjudged _)
    simpa using (hstart.trans hj).trans hend.judges

/-- An acknowledgement that contradicts no packet verdict leaves the evidence alone; one that does
marks it. -/
theorem Evidence.resolveAt {l} (h : Evidence l numbered contradicted) (ws : WireSeq)
    (ack : Option (Instant × Duration)) :
    Evidence (l.resolveAt ws ack).1 numbered
        ((l.contradicts ws ack).elim contradicted (contradictedWith l.verdicts contradicted)) ∧
      l.kPkt ≤ (l.resolveAt ws ack).1.kPkt ∧
      (l.kPkt < (l.resolveAt ws ack).1.kPkt → ∃ n, l.contradicts ws ack = some n ∧
        Overmarked l.verdicts (insert n contradicted)) := by
  have hsame : ∀ {l'}, Judges l l' [] → Evidence l' numbered contradicted ∧ l.kPkt ≤ l'.kPkt ∧
      ¬ l.kPkt < l'.kPkt := fun hj =>
    ⟨append_nil numbered ▸ hj.evidence h, hj.kPkt.ge, hj.kPkt.not_gt⟩
  unfold contradicts TransmissionLedger.resolveAt
  cases l.records.get? ws with
  | some r =>
    obtain ⟨he, hle, hlt⟩ := hsame (l.resolveLive_unjudged ws r ack).judges
    exact ⟨he, hle, fun h => absurd h hlt⟩
  | none =>
    cases ht : l.tombstones.get? ws with
    | none =>
      obtain ⟨he, hle, hlt⟩ := hsame (l.untouched_stats _).judges
      exact ⟨he, hle, fun h => absurd h hlt⟩
    | some t =>
      have hexhume : Evidence (l.exhume ws) numbered contradicted := by
        refine h.congr rfl rfl rfl fun ws' t' ht' => ?_
        rw [exhume, Dict.get?_erase] at ht'
        split_ifs at ht'
        exact ht'
      obtain ⟨m, hm, hcase⟩ := l.resolveLate_cases ws t ack
      have hm := ((l.exhume ws).moveReference_untouched t.tx t.departed ack).trans hm.untouched
      rcases hcase with heq | heq
      · simp only [heq]
        exact ⟨hexhume.untouched hm, hm.kPkt.ge, fun h => absurd h hm.kPkt.not_gt⟩
      · have hverdicts : m.verdicts = l.verdicts := hm.verdicts
        have hk : m.kPkt = l.kPkt := hm.kPkt
        simp only [heq, Option.bind_some]
        cases hn : t.packetVerdictNo with
        | none => exact ⟨hexhume.untouched hm, hk.ge, fun h => absurd h hk.not_gt⟩
        | some n =>
          obtain ⟨he, hle, hlt⟩ := (hexhume.untouched hm).noteSpurious (h.buried ws t n ht hn).1
            (hverdicts ▸ h.le_verdicts ht hn)
          rw [hverdicts] at he hlt
          rw [hk] at hle hlt
          exact ⟨he, hle, fun h => ⟨n, rfl, hlt h⟩⟩

end TransmissionLedger

open TransmissionLedger

/-! ### Sessions -/

/-- A ledger, with the packet verdicts of its session in order and the contradicted ones. -/
structure Session where
  ledger : TransmissionLedger
  numbered : List WireSeq := []
  contradicted : Finset ℕ := ∅

/-- One operation: the verdicts it reports and the one it contradicts are noted. -/
def Session.step (s : Session) : LedgerOp → Session
  | .resetSession => { ledger := ledgerStep s.ledger .resetSession }
  | .detectLossesAt now thr =>
    { s with
      ledger := ledgerStep s.ledger (.detectLossesAt now thr)
      numbered := s.numbered ++ packetSeqs (s.ledger.detectLossesAt now thr).2 }
  | .resolveAt ws ack =>
    { s with
      ledger := ledgerStep s.ledger (.resolveAt ws ack)
      contradicted := (s.ledger.contradicts ws ack).elim s.contradicted
        (contradictedWith s.ledger.verdicts s.contradicted) }
  | op => { s with ledger := ledgerStep s.ledger op }

/-- Every operation keeps the evidence; none but a reset lowers the threshold, and only one
contradicted verdict too many raises it. -/
theorem Session.evidence_step {s : Session} (op : LedgerOp)
    (h : Evidence s.ledger s.numbered s.contradicted) :
    Evidence (s.step op).ledger (s.step op).numbered (s.step op).contradicted ∧
      (op ≠ .resetSession → s.ledger.kPkt ≤ (ledgerStep s.ledger op).kPkt) ∧
      (s.ledger.kPkt < (ledgerStep s.ledger op).kPkt → ∃ ws ack n, op = .resolveAt ws ack ∧
        s.ledger.contradicts ws ack = some n ∧
        Overmarked s.ledger.verdicts (insert n s.contradicted)) := by
  -- all but three operations neither give a packet verdict nor contradict one
  have hsame : ∀ {l'}, Judges s.ledger l' [] → Evidence l' s.numbered s.contradicted ∧
      (op ≠ .resetSession → s.ledger.kPkt ≤ l'.kPkt) ∧
      (s.ledger.kPkt < l'.kPkt → ∃ ws ack n, op = .resolveAt ws ack ∧
        s.ledger.contradicts ws ack = some n ∧
        Overmarked s.ledger.verdicts (insert n s.contradicted)) := fun hj =>
    ⟨append_nil s.numbered ▸ hj.evidence h, fun _ => hj.kPkt.ge,
      fun hlt => absurd hlt hj.kPkt.not_gt⟩
  cases op with
  | resolveAt ws ack =>
    obtain ⟨he, hle, hlt⟩ := h.resolveAt ws ack
    refine ⟨he, fun _ => hle, fun hraise => ?_⟩
    obtain ⟨n, hn, hover⟩ := hlt hraise
    exact ⟨ws, ack, n, rfl, hn, hover⟩
  | detectLossesAt now thr =>
    have hj := s.ledger.detectLossesAt_judges now thr
    exact ⟨hj.evidence h, fun _ => hj.kPkt.ge, fun hlt => absurd hlt hj.kPkt.not_gt⟩
  | resetSession =>
    exact ⟨evidence_of_empty rfl rfl rfl rfl, fun hne => absurd rfl hne,
      fun hlt => absurd (h.low.trans_lt hlt) (lt_irrefl _)⟩
  | record ws at_ tx => exact hsame (s.ledger.record_unjudged ws at_ tx).judges
  | markDeparted ws at_ us => exact hsame (s.ledger.markDeparted_unjudged ws at_ us).judges
  | declareLostByPto ws =>
    obtain ⟨new, -, hj, hpto⟩ := s.ledger.declareLost_judges ws .pto []
    have hnone : packetSeqs new = [] := by
      rw [packetSeqs, map_eq_nil_iff, filter_eq_nil_iff]
      intro v hv
      simp [hpto v hv]
    rw [hnone] at hj
    exact hsame hj
  | forgetUndeparted ws => exact hsame (s.ledger.takeUndeparted_unjudged ws).judges
  | takeUndeparted ws => exact hsame (s.ledger.takeUndeparted_unjudged ws).judges
  | forgetOutstanding ws => exact hsame (s.ledger.forgetOutstanding_unjudged ws).judges
  | discardUndeparted => exact hsame (Unjudged.judges ⟨rfl, rfl, rfl, rfl, rfl, rfl⟩)
  | noteParityDeparted | markProbeBurst | nextLossTime | scanOutstanding
  | latestOutstandingDeparture =>
    exact hsame (Untouched.judges (ledgerStep_untouched s.ledger trivial))

theorem Session.ledger_step (s : Session) (op : LedgerOp) :
    (s.step op).ledger = ledgerStep s.ledger op := by
  cases op <;> rfl

theorem Session.ledger_run (s : Session) (ops : List LedgerOp) :
    (run step s ops).ledger = run ledgerStep s.ledger ops := by
  induction ops generalizing s with
  | nil => rfl
  | cons op ops ih => rw [run_cons, run_cons, ih, ledger_step]

/-- **The packet threshold follows its evidence.** After any operations on a new ledger the bits
are those of the packet verdicts among the last 64 that an acknowledgement, not explained by
parity, has contradicted since the evidence was cleared, one bit for each; the threshold is
between 3 and 8; the next operation lowers it only if it starts a new session, and raises it only
if it contradicts a verdict and with that one more than a tenth of the last 64 (at least 32) are
contradicted; and the verdict of every tombstone was numbered in this session, so that the
distance to the newest one does not underflow. -/
theorem packetThreshold_adapts (capacity : ℕ) (ops : List LedgerOp) (op : LedgerOp) :
    let s := run Session.step { ledger := .new capacity } ops
    let l := run ledgerStep (.new capacity) ops
    l.verdicts = s.numbered.length ∧
      (∀ n ∈ s.contradicted, 1 ≤ n ∧ n ≤ l.verdicts) ∧
      (∀ i < 64, l.spuriousBits.getLsbD i = true ↔
        ∃ n ∈ s.contradicted, InWindow 64 l.verdicts n ∧ n % 64 = i) ∧
      countOnes l.spuriousBits = (markedOf l.verdicts s.contradicted).card ∧
      3 ≤ l.kPkt ∧ l.kPkt ≤ 8 ∧
      (op ≠ .resetSession → l.kPkt ≤ (ledgerStep l op).kPkt) ∧
      (l.kPkt < (ledgerStep l op).kPkt → ∃ ws ack n, op = .resolveAt ws ack ∧
        l.contradicts ws ack = some n ∧ Overmarked l.verdicts (insert n s.contradicted)) ∧
      ∀ ws t n, l.tombstones.get? ws = some t → t.packetVerdictNo = some n →
        1 ≤ n ∧ n ≤ l.verdicts ∧ s.numbered[n - 1]? = some ws := by
  intro s l
  have hl : s.ledger = l := Session.ledger_run _ ops
  have he : Evidence s.ledger s.numbered s.contradicted :=
    run_inv (I := fun s : Session => Evidence s.ledger s.numbered s.contradicted)
      (fun _ op _ h => (Session.evidence_step op h).1) (evidence_of_empty rfl rfl rfl rfl)
  obtain ⟨-, hle, hlt⟩ := Session.evidence_step op he
  rw [hl] at he hle hlt
  refine ⟨he.count.symm, he.issued, he.marks, he.marks.countP_eq, he.low, he.high, hle, hlt, ?_⟩
  intro ws t n ht hn
  obtain ⟨hpos, hget⟩ := he.buried ws t n ht hn
  exact ⟨hpos, he.le_verdicts ht hn, hget⟩

/-- Thirty-six departures, of which all but the newest four are judged lost, and three of the
verdicts are contradicted. -/
def reorderedOps : List LedgerOp :=
  (List.range 36).flatMap (fun i =>
      [.record (.ofNat i) 0 (sampleTx 0), .markDeparted (.ofNat i) 5 5]) ++
    [.resolveAt 35 none, .detectLossesAt 6 1000, .resolveAt 0 none, .resolveAt 1 none,
      .resolveAt 2 none]

/-- The fourth contradicted verdict of thirty-two raises the threshold. -/
theorem packetThreshold_adapts_reordered :
    (run ledgerStep (.new 64) reorderedOps).kPkt = 3 ∧
      (ledgerStep (run ledgerStep (.new 64) reorderedOps) (.resolveAt 3 none)).kPkt = 4 ∧
      ∃ ws ack n, LedgerOp.resolveAt 3 none = .resolveAt ws ack ∧
        (run ledgerStep (.new 64) reorderedOps).contradicts ws ack = some n ∧
        Overmarked (run ledgerStep (.new 64) reorderedOps).verdicts
          (insert n (run Session.step { ledger := .new 64 } reorderedOps).contradicted) := by
  have hbefore : (run ledgerStep (.new 64) reorderedOps).kPkt = 3 := by decide +kernel
  have hafter : (ledgerStep (run ledgerStep (.new 64) reorderedOps) (.resolveAt 3 none)).kPkt = 4 :=
    by decide +kernel
  obtain ⟨-, -, -, -, -, -, -, hraise, -⟩ :=
    packetThreshold_adapts 64 reorderedOps (.resolveAt 3 none)
  exact ⟨hbefore, hafter, hraise (by rw [hbefore, hafter]; decide)⟩

end Ghostframe.Transport
