import Ghostframe.Transport.DepartureOrder

/-!
# Stopping early loses no verdict

`detect_losses_at` walks the departure order and stops at the first ordinary record
that is not lost. What it returns is what a pass over every outstanding record
returns, judged one by one.

* `CountLost`, `TimeLost`, `LostFor`: the rules for one record, as they are meant;
  `verdictOf_eq_some` says that the body of the walk decides them;
* `CountLost.earlier`, `TimeLost.earlier`: what is lost by a rule would have been lost
  had it left earlier, so nothing behind an ordinary survivor is lost;
* `detectLossesAt_complete`: in every run, exactly the lost records, in departure order.
-/

namespace Ghostframe.Transport

open List Option

namespace TransmissionLedger

variable {l : TransmissionLedger} {now : Instant} {thr : Duration}

/-! ### The rules for one record -/

/-- Nothing that left `reo_wnd` after `at_` has been acknowledged, with the window open. -/
def InsideWindow (l : TransmissionLedger) (thr : Duration) (at_ : Instant) : Prop :=
  l.reoAt thr ≠ 0 ∧ ∀ la ∈ l.largestAckedAt, la - at_ < l.reoAt thr

/-- The newest acknowledged departure was acknowledged `reo_wnd` ago. -/
def Quiet (l : TransmissionLedger) (now : Instant) (thr : Duration) : Prop :=
  ∀ a ∈ l.largestAckedArrival, l.reoAt thr ≤ now - a

/-- The count rule, against the newest acknowledged departure `m`: outside the window, inside it at
the learned depth, or inside it once the later departures have been quiet. -/
def CountLost (l : TransmissionLedger) (now : Instant) (thr : Duration) (m idx : ℕ)
    (at_ : Instant) : Prop :=
  (¬ l.InsideWindow thr at_ ∧ idx + l.kPkt ≤ m) ∨
    (l.InsideWindow thr at_ ∧ idx + max l.kPkt l.reoDepth ≤ m) ∨
    (l.InsideWindow thr at_ ∧ idx + l.kPkt ≤ m ∧ l.Quiet now thr)

/-- The time rule: a patient record waits three thresholds. -/
def TimeLost (l : TransmissionLedger) (now : Instant) (thr : Duration) (tx : Transmission)
    (at_ : Instant) : Prop :=
  at_ + (if l.isPatient tx at_ then thr * burstReorderFactor else thr) + l.reoAt thr ≤ now

/-- A departed record before the newest acknowledged departure is lost, for this reason. -/
def LostFor (l : TransmissionLedger) (now : Instant) (thr : Duration) (r : Record)
    (reason : LossReason) : Prop :=
  ∃ m idx at_, l.largestAcked = some m ∧ r.departed = some at_ ∧ r.tx.depIdx = some idx ∧ idx < m ∧
    (reason = .packet ∧ l.CountLost now thr m idx at_ ∨
      reason = .time ∧ ¬ l.CountLost now thr m idx at_ ∧ l.TimeLost now thr r.tx at_)

/-! ### What is lost would have been lost earlier -/

variable {at_ at' : Instant}

theorem InsideWindow.later (h : l.InsideWindow thr at_) (hle : at_ ≤ at') :
    l.InsideWindow thr at' := by
  refine ⟨h.1, fun la hla => ?_⟩
  have := h.2 la hla
  unfold Instant at *
  omega

theorem CountLost.earlier {m i j : ℕ} (h : l.CountLost now thr m j at')
    (hij : i < j) (hle : at_ ≤ at') : l.CountLost now thr m i at_ := by
  by_cases hinside : l.InsideWindow thr at_
  · rcases h with ⟨hout, -⟩ | ⟨-, hdepth⟩ | ⟨-, hcount, hquiet⟩
    · exact absurd (hinside.later hle) hout
    · exact .inr (.inl ⟨hinside, by omega⟩)
    · exact .inr (.inr ⟨hinside, by omega, hquiet⟩)
  · rcases h with ⟨-, hcount⟩ | ⟨-, hdepth⟩ | ⟨-, hcount, -⟩
    all_goals exact .inl ⟨hinside, by omega⟩

/-- For a record behind an ordinary one. -/
theorem TimeLost.earlier {tx tx' : Transmission}
    (h : l.TimeLost now thr tx' at') (hordinary : l.isPatient tx at_ = false) (hle : at_ ≤ at') :
    l.TimeLost now thr tx at_ := by
  unfold TimeLost at *
  rw [if_neg (by simp [hordinary])]
  have hpatience : thr ≤ if l.isPatient tx' at' then thr * burstReorderFactor else thr := by
    split_ifs
    · exact Nat.le_mul_of_pos_right _ (by decide)
    · exact Nat.le_refl _
  unfold Instant Duration at *
  omega

/-! ### The body of the walk decides the rules -/

/-- The verdict the walk would reach on an entry, had it not stopped. -/
def verdictOf (l : TransmissionLedger) (p : DetectParams) (ws : WireSeq) :
    Option LostTransmission :=
  match l.judge p 0 ws, l.records.get? ws with
  | .lost reason _, some r => some (ws, r.tx, reason)
  | _, _ => none

theorem packetBranch_isSome {m idx : ℕ} {at_ : Instant} :
    (l.packetBranch (l.detectParams now thr m) idx at_).isSome ↔ l.CountLost now thr m idx at_ := by
  set p := l.detectParams now thr m
  have hinside :
    (decide (p.reo ≠ 0) && p.largestAt.all fun la => decide (la - at_ < p.reo)) = true ↔
      l.InsideWindow thr at_ := by
    show (decide (l.reoAt thr ≠ 0) && l.largestAckedAt.all _) = true ↔ _
    unfold InsideWindow
    cases l.largestAckedAt <;> simp [p, detectParams]
  have hquiet : p.quiet = true ↔ l.Quiet now thr := by
    show (l.largestAckedArrival.all _) = true ↔ _
    unfold Quiet
    cases l.largestAckedArrival <;> simp
  unfold packetBranch CountLost
  by_cases hin : l.InsideWindow thr at_
  · split_ifs <;> simp_all [p, detectParams]
  · simp only [hin, not_false_eq_true, true_and, false_and, or_false]
    split_ifs <;> simp_all [p, detectParams]

section Judged

variable {m idx : ℕ} {ws : WireSeq} {r : Record} {at_ : Instant}

/-- The judgement on a departed record, rule by rule. -/
theorem judge_departed (now : Instant) (thr : Duration) (m stepped : ℕ)
    (hr : l.records.get? ws = some r) (hd : r.departed = some at_) (hi : r.tx.depIdx = some idx) :
    (m ≤ idx ∧ l.judge (l.detectParams now thr m) stepped ws = .stop) ∨
    (idx < m ∧ l.CountLost now thr m idx at_ ∧
      ∃ b, l.judge (l.detectParams now thr m) stepped ws = .lost .packet (some b)) ∨
    (idx < m ∧ ¬ l.CountLost now thr m idx at_ ∧ l.TimeLost now thr r.tx at_ ∧
      l.judge (l.detectParams now thr m) stepped ws = .lost .time none) ∨
    (idx < m ∧ ¬ l.CountLost now thr m idx at_ ∧ ¬ l.TimeLost now thr r.tx at_ ∧
      l.judge (l.detectParams now thr m) stepped ws =
        if l.isPatient r.tx at_ = true ∧ stepped < patientScanLimit then .patient else .stop) := by
  unfold judge
  simp only [hr, hd, hi, getD_some]
  by_cases hlt : m ≤ idx
  · exact .inl ⟨hlt, if_pos hlt⟩
  have hbelow : idx < m := Nat.lt_of_not_le hlt
  rw [if_neg (show ¬ idx ≥ (l.detectParams now thr m).largestIdx from hlt)]
  cases hb : l.packetBranch (l.detectParams now thr m) idx at_ with
  | some b => exact .inr (.inl ⟨hbelow, packetBranch_isSome.1 (by rw [hb]; rfl), b, rfl⟩)
  | none =>
    have hcount : ¬ l.CountLost now thr m idx at_ := by
      intro h
      rw [← packetBranch_isSome, hb] at h
      cases h
    by_cases htime : l.TimeLost now thr r.tx at_
    · exact .inr (.inr (.inl ⟨hbelow, hcount, htime, if_pos htime⟩))
    · exact .inr (.inr (.inr ⟨hbelow, hcount, htime, if_neg htime⟩))

/-- An entry whose record is resolved, or not departed, is passed. -/
theorem judge_of_not_departed {p : DetectParams} {stepped : ℕ} (h : ¬ l.isDeparted ws) :
    l.judge p stepped ws = .dead := by
  unfold judge
  cases hr : l.records.get? ws with
  | none => rfl
  | some r =>
    cases hd : r.departed with
    | none => simp [hd]
    | some at_ => exact absurd ((isDeparted_iff l).2 ⟨r, hr, by simp [hd]⟩) h

theorem verdictOf_eq_some (hm : l.largestAcked = some m)
    (hstamped : ∀ r, l.records.get? ws = some r → r.departed.isSome → ∃ i, r.tx.depIdx = some i)
    {v : LostTransmission} :
    l.verdictOf (l.detectParams now thr m) ws = some v ↔
      ∃ r, l.records.get? ws = some r ∧ l.LostFor now thr r v.2.2 ∧ v = (ws, r.tx, v.2.2) := by
  by_cases hdep : l.isDeparted ws
  · obtain ⟨r, hr, hd⟩ := (isDeparted_iff l).1 hdep
    obtain ⟨at_, hat⟩ := isSome_iff_exists.1 hd
    obtain ⟨idx, hi⟩ := hstamped r hr hd
    have hfor : ∀ reason, l.LostFor now thr r reason ↔ idx < m ∧
        (reason = .packet ∧ l.CountLost now thr m idx at_ ∨
          reason = .time ∧ ¬ l.CountLost now thr m idx at_ ∧ l.TimeLost now thr r.tx at_) := by
      intro reason
      simp [LostFor, hm, hat, hi]
    unfold verdictOf
    rw [hr]
    simp only [Option.some.injEq, exists_eq_left', hfor]
    rcases judge_departed now thr m 0 hr hat hi with
      ⟨hle, hj⟩ | ⟨hlt, hcount, b, hj⟩ | ⟨hlt, hcount, htime, hj⟩ | ⟨hlt, hcount, htime, hj⟩
    · rw [hj]
      simp only [reduceCtorEq, false_iff, not_and]
      intro hlt
      exact absurd hlt.1 (by omega)
    · simp only [hj, Option.some.injEq]
      constructor
      · rintro rfl
        exact ⟨⟨hlt, .inl ⟨rfl, hcount⟩⟩, rfl⟩
      · rintro ⟨⟨-, ⟨hv, -⟩ | ⟨-, hnot, -⟩⟩, hv'⟩
        · rw [hv', hv]
        · exact absurd hcount hnot
    · simp only [hj, Option.some.injEq]
      constructor
      · rintro rfl
        exact ⟨⟨hlt, .inr ⟨rfl, hcount, htime⟩⟩, rfl⟩
      · rintro ⟨⟨-, ⟨-, hnot⟩ | ⟨hv, -⟩⟩, hv'⟩
        · exact absurd hnot hcount
        · rw [hv', hv]
    · rw [hj]
      constructor
      · intro h
        split_ifs at h
      · rintro ⟨⟨-, ⟨-, hnot⟩ | ⟨-, -, hnot⟩⟩, -⟩
        · exact absurd hnot hcount
        · exact absurd hnot htime
  · rw [verdictOf, judge_of_not_departed hdep]
    constructor
    · rintro ⟨⟩
    · rintro ⟨r, hr, ⟨_, _, at_, -, hat, -⟩, -⟩
      exact absurd ((isDeparted_iff l).2 ⟨r, hr, by simp [hat]⟩) hdep

end Judged

/-! ### The walk -/

section Walk

variable {m : TransmissionLedger} {p : DetectParams} {ws : WireSeq}

theorem judge_congr (hrules : SameRules l m) (hget : m.records.get? ws = l.records.get? ws)
    (p : DetectParams) (stepped : ℕ) : m.judge p stepped ws = l.judge p stepped ws := by
  unfold judge packetBranch isPatient inProbeBurst
  rw [hget, hrules.probeBursts, hrules.kPkt, hrules.reoDepth]

/-- Having stepped over others only matters for a patient record past the limit. -/
theorem judge_stepped (l : TransmissionLedger) (p : DetectParams) (ws : WireSeq) (stepped : ℕ) :
    l.judge p stepped ws = l.judge p 0 ws ∨
      (l.judge p 0 ws = .patient ∧ patientScanLimit ≤ stepped) := by
  have hpos : 0 < patientScanLimit := by decide
  unfold judge
  cases hr : l.records.get? ws with
  | none => exact .inl rfl
  | some r =>
    cases hd : r.departed with
    | none => simp [hd]
    | some at_ =>
      simp only [hd]
      generalize l.packetBranch p (r.tx.depIdx.getD (2 ^ 64 - 1)) at_ = branch
      cases branch with
      | some b => exact .inl rfl
      | none =>
        simp only [hpos, and_true]
        by_cases hlimit : stepped < patientScanLimit
        · simp [hlimit]
        · simp only [hlimit, and_false, if_false]
          split_ifs <;> simp [Nat.le_of_not_lt hlimit]

/-- **The walk collects the verdicts on the entries**, when nothing behind an entry it stops at has
one and the patient entries are within the limit. -/
theorem detectWalk_eq (l0 : TransmissionLedger) (p : DetectParams) (rest : List WireSeq) :
    ∀ (passed : List WireSeq) (stepped : ℕ) (l : TransmissionLedger) (lost : List LostTransmission),
      SameRules l0 l → (∀ ws ∈ rest, l.records.get? ws = l0.records.get? ws) → rest.Nodup →
      rest.Pairwise (fun w w' => l0.judge p 0 w = .stop → l0.verdictOf p w' = none) →
      stepped + rest.countP (fun ws => l0.judge p 0 ws = .patient) ≤ patientScanLimit →
      (detectWalk p passed rest stepped l lost).2 = lost ++ rest.filterMap (l0.verdictOf p) := by
  induction rest with
  | nil =>
    intro passed stepped l lost _ _ _ _ _
    simp [detectWalk]
  | cons ws rest ih =>
    intro passed stepped l lost hrules hget hnodup hstop hcount
    obtain ⟨hnot, hnodup⟩ := nodup_cons.1 hnodup
    obtain ⟨hbehind, hstop⟩ := pairwise_cons.1 hstop
    have hhere := hget ws mem_cons_self
    have hrest : ∀ w ∈ rest, l.records.get? w = l0.records.get? w := fun w hw =>
      hget w (mem_cons_of_mem _ hw)
    rw [countP_cons] at hcount
    -- the patient entries still ahead leave room for one at hand
    have hjudge : l.judge p stepped ws = l0.judge p 0 ws := by
      rw [judge_congr hrules hhere]
      rcases l0.judge_stepped p ws stepped with h | ⟨hpatient, hlimit⟩
      · exact h
      · simp only [hpatient, decide_true, if_true] at hcount
        omega
    unfold detectWalk
    rw [hjudge, filterMap_cons]
    cases hj : l0.judge p 0 ws with
    | dead =>
      have hnone : l0.verdictOf p ws = none := by simp [verdictOf, hj]
      rw [hnone]
      exact ih _ _ l lost hrules hrest hnodup hstop (by omega)
    | stop =>
      have hnone : l0.verdictOf p ws = none := by simp [verdictOf, hj]
      have hnil : rest.filterMap (l0.verdictOf p) = [] :=
        filterMap_eq_nil_iff.2 fun w hw => hbehind w hw hj
      rw [hnone, hnil]
      simp
    | patient =>
      have hnone : l0.verdictOf p ws = none := by simp [verdictOf, hj]
      rw [hnone]
      simp only [hj, decide_true, if_true] at hcount
      exact ih _ _ l lost hrules hrest hnodup hstop (by omega)
    | lost reason branch =>
      obtain ⟨-, r, hr, -, -⟩ := l0.judge_eq_lost hj
      have hsome : l0.verdictOf p ws = some (ws, r.tx, reason) := by simp [verdictOf, hj, hr]
      rw [hsome]
      simp only
      set l1 := { l with stats := branch.elim l.stats (countBranch l.stats) }
      have hl1 : SameRules l l1 := ⟨rfl, rfl, rfl, rfl, rfl⟩
      have hlost : (l1.declareLost ws reason lost).2 = lost ++ [(ws, r.tx, reason)] := by
        unfold declareLost
        rw [show l1.records.get? ws = some r from hhere.trans hr]
      rw [hlost, ih _ _ _ _ ((hrules.trans hl1).trans (l1.declareLost_sameRules ws reason lost))
        ?_ hnodup hstop (by omega), append_assoc, singleton_append]
      intro w hw
      have hne : w ≠ ws := by
        rintro rfl
        exact hnot hw
      rw [declareLost_get?, if_neg hne]
      exact hrest w hw

end Walk

/-! ### Completeness -/

/-- The departure instants do not decrease with the departure index. -/
def DepartsInOrder (l : TransmissionLedger) : Prop :=
  ∀ e ∈ l.records.toList, ∀ e' ∈ l.records.toList, ∀ i ∈ e.2.tx.depIdx, ∀ j ∈ e'.2.tx.depIdx,
    i < j → ∀ a ∈ e.2.departed, ∀ b ∈ e'.2.departed, a ≤ b

instance (l : TransmissionLedger) : Decidable l.DepartsInOrder := by
  unfold DepartsInOrder Instant
  infer_instance

/-- The outstanding record under this number is patient. -/
def isPatientSeq (l : TransmissionLedger) (ws : WireSeq) : Bool :=
  (l.records.get? ws).any fun r => r.departed.any fun at_ => l.isPatient r.tx at_

/-- The number of patient records outstanding. -/
def patientCount (l : TransmissionLedger) : ℕ := l.records.keys.countP l.isPatientSeq

section Complete

variable {used : List WireSeq} {m : ℕ}

/-- The entries the walk may step over are patient records. -/
theorem countP_patient_le (h : DepartureOrder l used) :
    l.departedOrder.countP (fun ws => l.judge (l.detectParams now thr m) 0 ws = .patient) ≤
      l.patientCount := by
  have hpatient : ∀ ws, l.judge (l.detectParams now thr m) 0 ws = .patient →
      ws ∈ l.records.keys ∧ l.isPatientSeq ws = true := by
    intro ws hj
    by_cases hd : l.isDeparted ws
    · obtain ⟨r, hr, hdep⟩ := (isDeparted_iff l).1 hd
      obtain ⟨at_, hat⟩ := isSome_iff_exists.1 hdep
      obtain ⟨idx, hi⟩ := h.stamped ws r hr hdep
      refine ⟨Dict.mem_keys_of_get? hr, ?_⟩
      rcases judge_departed now thr m 0 hr hat hi with
        ⟨-, hj'⟩ | ⟨-, -, b, hj'⟩ | ⟨-, -, -, hj'⟩ | ⟨-, -, -, hj'⟩
      · exact absurd (hj.symm.trans hj') nofun
      · exact absurd (hj.symm.trans hj') nofun
      · exact absurd (hj.symm.trans hj') nofun
      · rw [hj] at hj'
        split_ifs at hj' with hpat
        simp [isPatientSeq, hr, hat, hpat.1]
    · rw [judge_of_not_departed hd] at hj
      cases hj
  rw [patientCount, countP_eq_length_filter, countP_eq_length_filter]
  refine (subperm_of_subset (h.nodup.filter _) fun ws hws => ?_).length_le
  have hj := (mem_filter.1 hws).2
  exact mem_filter.2 (hpatient ws (of_decide_eq_true hj))

/-- **Nothing behind an entry the walk stops at is lost.** -/
theorem verdictOf_behind_stop (h : DepartureOrder l used) (hclock : l.DepartsInOrder)
    (hm : l.largestAcked = some m) :
    l.departedOrder.Pairwise fun w w' => l.judge (l.detectParams now thr m) 0 w = .stop →
      l.verdictOf (l.detectParams now thr m) w' = none := by
  refine h.sorted.imp fun {w w'} hlt hj => ?_
  rw [eq_none_iff_forall_ne_some]
  intro v hv
  obtain ⟨r', hr', ⟨m', j, at', hm', hd', hj', hbelow, hlost⟩, -⟩ :=
    (verdictOf_eq_some hm (h.stamped w')).1 hv
  obtain rfl : m' = m := some.inj (hm'.symm.trans hm)
  by_cases hd : l.isDeparted w
  · obtain ⟨r, hr, hdep⟩ := (isDeparted_iff l).1 hd
    obtain ⟨at_, hat⟩ := isSome_iff_exists.1 hdep
    obtain ⟨i, hi⟩ := h.stamped w r hr hdep
    have hij : i < j := hlt r r' i j hr hr' hi hj'
    have hle : at_ ≤ at' := hclock (w, r) ((Dict.mem_toList_iff _ _ _).2 hr) (w', r')
      ((Dict.mem_toList_iff _ _ _).2 hr') i hi j hj' hij at_ hat at' hd'
    rcases judge_departed now thr m' 0 hr hat hi with
      ⟨habove, -⟩ | ⟨-, -, b, hstop⟩ | ⟨-, -, -, hstop⟩ | ⟨-, hcount, htime, hstop⟩
    · omega
    · exact absurd (hj.symm.trans hstop) nofun
    · exact absurd (hj.symm.trans hstop) nofun
    · rw [hj] at hstop
      have hordinary : l.isPatient r.tx at_ = false := by
        by_contra hpat
        rw [if_pos ⟨by simpa using hpat, by decide⟩] at hstop
        cases hstop
      rcases hlost with ⟨-, hcount'⟩ | ⟨-, -, htime'⟩
      · exact hcount (hcount'.earlier hij hle)
      · exact htime (htime'.earlier hordinary hle)
  · rw [judge_of_not_departed hd] at hj
    cases hj

/-- One pass finds every verdict, in the order of the entries. -/
theorem detectLossesAt_eq (h : DepartureOrder l used) (hclock : l.DepartsInOrder)
    (hpatient : l.patientCount ≤ patientScanLimit) (hm : l.largestAcked = some m) :
    (l.detectLossesAt now thr).2 =
      l.departedOrder.filterMap (l.verdictOf (l.detectParams now thr m)) := by
  unfold detectLossesAt
  rw [hm]
  have hwalk := detectWalk_eq l (l.detectParams now thr m) l.departedOrder [] 0
    (l.noteThreshold thr) [] ⟨rfl, rfl, rfl, rfl, rfl⟩ (fun _ _ => rfl) h.nodup
    (verdictOf_behind_stop h hclock hm)
      ((Nat.zero_add _).trans_le (countP_patient_le h |>.trans hpatient))
  exact hwalk

end Complete

end TransmissionLedger

open TransmissionLedger

/-- **Stopping early loses no verdict.** In every state a run with distinct numbers reaches, with
the departure instants in order and the patient records within the limit of the scan, one pass
declares lost exactly the departed records that the rules, applied to each of them, say are lost,
for that reason, and in departure order. -/
theorem detectLossesAt_complete (capacity : ℕ) (ops : List LedgerOp)
    (hdistinct : (ops.filterMap LedgerOp.recordedSeq).Nodup) (now : Instant) (thr : Duration)
    (hclock : (run ledgerStep (.new capacity) ops).DepartsInOrder)
    (hpatient : (run ledgerStep (.new capacity) ops).patientCount ≤ patientScanLimit) :
    (∀ ws tx reason,
      (ws, tx, reason) ∈ ((run ledgerStep (.new capacity) ops).detectLossesAt now thr).2 ↔
        ∃ r, (run ledgerStep (.new capacity) ops).records.get? ws = some r ∧ r.tx = tx ∧
          (run ledgerStep (.new capacity) ops).LostFor now thr r reason) ∧
      ((run ledgerStep (.new capacity) ops).detectLossesAt now thr).2.Pairwise fun v v' =>
        ∃ i j, v.2.1.depIdx = some i ∧ v'.2.1.depIdx = some j ∧ i < j := by
  have h := run_departureOrder ops (.new capacity) [] (departureOrder_of_empty rfl rfl)
    (by simpa using hdistinct)
  generalize run ledgerStep (.new capacity) ops = l at *
  cases hm : l.largestAcked with
  | none =>
    have hnil : (l.detectLossesAt now thr).2 = [] := by
      unfold detectLossesAt
      rw [hm]
    rw [hnil]
    refine ⟨fun ws tx reason => ⟨nofun, ?_⟩, .nil⟩
    rintro ⟨r, -, -, m, _, _, hm', -⟩
    rw [hm] at hm'
    cases hm'
  | some m =>
    rw [detectLossesAt_eq h hclock hpatient hm]
    constructor
    · intro ws tx reason
      rw [mem_filterMap]
      constructor
      · rintro ⟨w, -, hv⟩
        obtain ⟨r, hr, hlost, heq⟩ := (verdictOf_eq_some hm (h.stamped w)).1 hv
        obtain ⟨rfl, htx⟩ := Prod.mk.inj heq
        exact ⟨r, hr, (Prod.mk.inj htx).1.symm, hlost⟩
      · rintro ⟨r, hr, rfl, hlost⟩
        have hlisted : ws ∈ l.departedOrder := by
          obtain ⟨_, _, at_, -, hat, -⟩ := hlost
          exact h.listed ws ((isDeparted_iff l).2 ⟨r, hr, by simp [hat]⟩)
        exact ⟨ws, hlisted, (verdictOf_eq_some hm (h.stamped ws)).2 ⟨r, hr, hlost, rfl⟩⟩
    · refine List.Pairwise.filterMap _ ?_ h.sorted
      intro w w' hlt v hv v' hv'
      obtain ⟨r, hr, ⟨_, i, _, -, -, hi, -⟩, heq⟩ := (verdictOf_eq_some hm (h.stamped w)).1 hv
      obtain ⟨r', hr', ⟨_, j, _, -, -, hj, -⟩, heq'⟩ := (verdictOf_eq_some hm (h.stamped w')).1 hv'
      rw [heq, heq']
      exact ⟨i, j, hi, hj, hlt r r' i j hr hr' hi hj⟩

/-- A fragment departs inside a probe burst, two tile passes after it; the last is acknowledged. -/
def burstOps : List LedgerOp :=
  [.markProbeBurst 5 5, .record 0 0 { sampleTx 0 with content := .h264Frag 0 0 },
    .record 1 0 (sampleTx 1), .record 2 0 (sampleTx 2), .markDeparted 0 5 5, .markDeparted 1 6 6,
    .markDeparted 2 7 7, .resolveAt 2 none]

/-- The patient fragment is stepped over, and the pass behind it is declared lost. -/
theorem detectLossesAt_complete_burst :
    (run ledgerStep (.new 8) burstOps).patientCount = 1 ∧
      ((run ledgerStep (.new 8) burstOps).detectLossesAt 16 10).2.map (fun v => (v.1, v.2.2)) =
        [(1, .time)] ∧
      ∃ r, (run ledgerStep (.new 8) burstOps).records.get? 1 = some r ∧
        (run ledgerStep (.new 8) burstOps).LostFor 16 10 r .time := by
  obtain ⟨hmem, -⟩ := detectLossesAt_complete 8 burstOps (by decide) 16 10 (by decide +kernel)
    (by decide +kernel)
  refine ⟨by decide +kernel, by decide +kernel, ?_⟩
  obtain ⟨r, hr, -, hlost⟩ := (hmem 1 { sampleTx 1 with departUs := some 6, depIdx := some 1 }
    .time).1 (by decide +kernel)
  exact ⟨r, hr, hlost⟩

end Ghostframe.Transport
