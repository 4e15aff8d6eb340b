import Ghostframe.Transport.Ledger

/-!
# What each ledger operation does

One specification per operation of the ledger, in terms of the four things the
later proofs look at: the outstanding records, the tombstones, the reference
departure (`largestAcked`, `nextDepIdx`), and `settled`, the sum of the counters
that close a record.

* `Verdicts l l' new`: `l'` is `l` after the verdicts `new`, and nothing else;
* `record_size`: the records and the closing counters together grow by one.
-/

namespace Ghostframe.Transport

open Dict LedgerStats List List.Subperm

/-- The records closed without being acknowledged, as the counters have it. -/
def LedgerStats.settled (s : LedgerStats) : ℕ :=
  (s.lostPacketThreshold + s.lostTimeThreshold + s.lostPto) + s.forgottenBeforeDeparture
    + s.forgottenWithoutVerdict + s.capacityEvictions

namespace TransmissionLedger

variable (l : TransmissionLedger)

/-! ### Bookkeeping helpers -/

section Leave

variable (r : Record)

@[simp] theorem leave_records : (l.leave r).records = l.records := by
  unfold leave; split <;> rfl

@[simp] theorem leave_tombstones : (l.leave r).tombstones = l.tombstones := by
  unfold leave; split <;> rfl

@[simp] theorem leave_stats : (l.leave r).stats = l.stats := by
  unfold leave; split <;> rfl

@[simp] theorem leave_capacity : (l.leave r).capacity = l.capacity := by
  unfold leave; split <;> rfl

@[simp] theorem leave_largestAcked : (l.leave r).largestAcked = l.largestAcked := by
  unfold leave; split <;> rfl

@[simp] theorem leave_nextDepIdx : (l.leave r).nextDepIdx = l.nextDepIdx := by
  unfold leave; split <;> rfl

end Leave

theorem compactIfSparse_eq : ∃ order departed,
    l.compactIfSparse = { l with order := order, departedOrder := departed } := by
  unfold compactIfSparse
  simp only
  split_ifs <;> exact ⟨_, _, rfl⟩

@[simp] theorem compactIfSparse_records : l.compactIfSparse.records = l.records := by
  obtain ⟨_, _, heq⟩ := l.compactIfSparse_eq
  rw [heq]

@[simp] theorem compactIfSparse_capacity : l.compactIfSparse.capacity = l.capacity := by
  obtain ⟨_, _, heq⟩ := l.compactIfSparse_eq
  rw [heq]

/-- What a pure threshold adaptation leaves alone. -/
structure SameBook (l l' : TransmissionLedger) : Prop where
  records : l'.records = l.records
  tombstones : l'.tombstones = l.tombstones
  largestAcked : l'.largestAcked = l.largestAcked
  nextDepIdx : l'.nextDepIdx = l.nextDepIdx
  settled : l'.stats.settled = l.stats.settled

theorem SameBook.refl : SameBook l l := ⟨rfl, rfl, rfl, rfl, rfl⟩

variable (order : List WireSeq) {m l' : TransmissionLedger} (tx : Transmission)
  (departed : Option Instant) (ack : Option (Instant × Duration))

theorem SameBook.trans {l l'' : TransmissionLedger} (h : SameBook l l') (h' : SameBook l' l'') :
    SameBook l l'' :=
  ⟨h'.records.trans h.records, h'.tombstones.trans h.tombstones,
    h'.largestAcked.trans h.largestAcked, h'.nextDepIdx.trans h.nextDepIdx,
    h'.settled.trans h.settled⟩

/-- Only what the thresholds have learned, the probe bursts, the parity departures or a counter
that closes no record may differ. -/
structure Aside (l l' : TransmissionLedger) : Prop where
  records : l'.records = l.records
  order : l'.order = l.order
  departedOrder : l'.departedOrder = l.departedOrder
  capacity : l'.capacity = l.capacity
  tombstones : l'.tombstones = l.tombstones
  tombstoneOrder : l'.tombstoneOrder = l.tombstoneOrder
  nextDepIdx : l'.nextDepIdx = l.nextDepIdx
  largestAcked : l'.largestAcked = l.largestAcked
  kPkt : l'.kPkt = l.kPkt
  verdicts : l'.verdicts = l.verdicts
  spuriousBits : l'.spuriousBits = l.spuriousBits
  departedBytes : l'.departedBytes = l.departedBytes
  settled : l'.stats.settled = l.stats.settled

theorem Aside.trans {l l'' : TransmissionLedger} (h : Aside l l') (h' : Aside l' l'') :
    Aside l l'' := by
  obtain ⟨h1, h2, h3, h4, h5, h6, h7, h8, h9, h10, h11, h12, h13⟩ := h
  constructor <;> simp only [*, h'.1, h'.2, h'.3, h'.4, h'.5, h'.6, h'.7, h'.8, h'.9, h'.10, h'.11,
    h'.12, h'.13]

theorem Aside.sameBook {l : TransmissionLedger} (h : Aside l l') : SameBook l l' :=
  ⟨h.records, h.tombstones, h.largestAcked, h.nextDepIdx, h.settled⟩

theorem noteThreshold_aside (thr : Duration) : Aside l (l.noteThreshold thr) := by
  constructor <;> rfl

theorem noteRecovery_aside (now : Instant) (thr : Duration) (lost : List LostTransmission) :
    Aside l (l.noteRecovery now thr lost) := by
  unfold noteRecovery
  simp only
  split_ifs <;> constructor <;> rfl

theorem learnReordering_aside (now : Option Instant) (minRtt : Option Duration)
    (extent : Duration) (disp : ℕ) : Aside l (l.learnReordering now minRtt extent disp) := by
  unfold learnReordering
  simp only
  split_ifs <;> constructor <;> rfl

theorem expireParity_aside (at_ : Instant) (retain : Duration) (order : List (WireSeq × Instant))
    (l : TransmissionLedger) : Aside l (expireParity at_ retain order l) := by
  induction order generalizing l with
  | nil => constructor <;> rfl
  | cons e rest ih =>
    unfold expireParity
    split_ifs
    · constructor <;> rfl
    · refine Aside.trans ?_ (ih _)
      constructor <;> rfl
    · exact ih l

theorem noteParityDeparted_aside (groupFirst : WireSeq) (at_ : Instant) (retain : Duration) :
    Aside l (l.noteParityDeparted groupFirst at_ retain) := by
  unfold noteParityDeparted
  refine (expireParity_aside at_ retain l.parityOrder l).trans ?_
  constructor <;> rfl

theorem markProbeBurst_aside (start stop : Instant) : Aside l (l.markProbeBurst start stop) := by
  unfold markProbeBurst
  split
  · split_ifs <;> constructor <;> rfl
  · constructor <;> rfl

/-- Marking a contradicted verdict writes the evidence only. -/
theorem noteSpuriousVerdict_eq (no : Option ℕ) :
    ∃ k stats bits, l.noteSpuriousVerdict no =
        { l with kPkt := k, stats := stats, spuriousBits := bits } ∧
      stats.settled = l.stats.settled := by
  cases no with
  | none => exact ⟨l.kPkt, l.stats, l.spuriousBits, rfl, rfl⟩
  | some n =>
    unfold noteSpuriousVerdict noteSpurious
    simp only
    split_ifs <;> exact ⟨_, _, _, rfl, rfl⟩

/-! ### The reference departure -/

/-- The departure index an acknowledgement of `tx` moves the reference to, if any. -/
def referenceIdx (tx : Transmission) (departed : Option Instant) : Option ℕ :=
  match tx.depIdx, departed, tx.content.isPad with
  | some idx, some _, false => some idx
  | _, _, _ => none

/-- The reference departure moves at most to the acknowledged one. -/
theorem moveReference_eq : ∃ largest at_ arrival, l.moveReference tx departed ack =
      { l with largestAcked := largest, largestAckedAt := at_, largestAckedArrival := arrival } ∧
    ∀ m, largest = some m → l.largestAcked = some m ∨ referenceIdx tx departed = some m := by
  unfold moveReference
  split
  · rename_i idx at_ hidx hpad
    unfold advanceLargestAcked
    split_ifs
    · refine ⟨_, _, _, rfl, fun m hm => .inr ?_⟩
      simp [referenceIdx, hidx, hpad, Option.some.inj hm]
    · exact ⟨_, _, _, rfl, fun m hm => .inl hm⟩
  · exact ⟨_, _, _, rfl, fun m hm => .inl hm⟩

theorem moveReference_records : (l.moveReference tx departed ack).records = l.records := by
  obtain ⟨_, _, _, heq, -⟩ := l.moveReference_eq tx departed ack
  rw [heq]

theorem moveReference_tombstones : (l.moveReference tx departed ack).tombstones = l.tombstones := by
  obtain ⟨_, _, _, heq, -⟩ := l.moveReference_eq tx departed ack
  rw [heq]

/-- What an acknowledgement of `tx` may do beyond the record or tombstone it takes: the reference
departure moves at most to the acknowledged one, and no closing counter moves. -/
structure Resolves (l l' : TransmissionLedger) (tx : Transmission) (departed : Option Instant) :
    Prop where
  nextDepIdx : l'.nextDepIdx = l.nextDepIdx
  settled : l'.stats.settled = l.stats.settled
  largestAcked : ∀ m, l'.largestAcked = some m →
    l.largestAcked = some m ∨ referenceIdx tx departed = some m

theorem moveReference_resolves : Resolves l (l.moveReference tx departed ack) tx departed := by
  obtain ⟨_, _, _, heq, hmove⟩ := l.moveReference_eq tx departed ack
  rw [heq]
  exact ⟨rfl, rfl, hmove⟩

theorem Resolves.sameBook {l : TransmissionLedger} {tx : Transmission} {departed : Option Instant}
    (h : Resolves l m tx departed) (hb : SameBook m l') : Resolves l l' tx departed :=
  ⟨hb.nextDepIdx.trans h.nextDepIdx, hb.settled.trans h.settled,
    fun i hi => h.largestAcked i (hb.largestAcked ▸ hi)⟩

variable (ws : WireSeq)

theorem resolveLive_records (r : Record) (ack : Option (Instant × Duration)) :
    (l.resolveLive ws r ack).records = l.records.erase ws := by
  simp [resolveLive, moveReference_records]

theorem resolveLive_tombstones (r : Record) (ack : Option (Instant × Duration)) :
    (l.resolveLive ws r ack).tombstones = l.tombstones := by
  simp [resolveLive, moveReference_tombstones]

theorem resolveLive_resolves (r : Record) (ack : Option (Instant × Duration)) :
    Resolves l (l.resolveLive ws r ack) r.tx r.departed := by
  have h := moveReference_resolves { l with records := l.records.erase ws } r.tx r.departed ack
  exact ⟨by simpa [resolveLive] using h.nextDepIdx, by simpa [resolveLive] using h.settled,
    fun m hm => h.largestAcked m (by simpa [resolveLive] using hm)⟩

variable (t : Tombstone)

/-- A late acknowledgement takes its tombstone and moves the reference; unless parity explains it,
it also marks the verdict. -/
theorem resolveLate_cases (ack : Option (Instant × Duration)) :
    ∃ m, Aside ((l.exhume ws).moveReference t.tx t.departed ack) m ∧
      (l.resolveLate ws t ack = (m, true) ∨
        l.resolveLate ws t ack = (m.noteSpuriousVerdict t.packetVerdictNo, false)) := by
  unfold resolveLate
  simp only
  split_ifs
  · refine ⟨_, ?_, .inl rfl⟩
    constructor <;> rfl
  · unfold learnFromLate
    refine ⟨_, ?_, .inr rfl⟩
    split_ifs
    · constructor <;> rfl
    · refine Aside.trans ?_ (learnReordering_aside _ _ _ _ _)
      constructor <;> rfl
    · refine Aside.trans ?_ (learnReordering_aside _ _ _ _ _)
      constructor <;> rfl
    · constructor <;> rfl

theorem resolveLate_sameBook (ack : Option (Instant × Duration)) :
    SameBook ((l.exhume ws).moveReference t.tx t.departed ack) (l.resolveLate ws t ack).1 := by
  obtain ⟨m, hm, heq | heq⟩ := l.resolveLate_cases ws t ack
  · rw [heq]
    exact hm.sameBook
  · obtain ⟨k, stats, bits, hnote, hset⟩ := m.noteSpuriousVerdict_eq t.packetVerdictNo
    rw [heq, hnote]
    exact hm.sameBook.trans ⟨rfl, rfl, rfl, rfl, hset⟩

theorem resolveLate_departed (ack : Option (Instant × Duration)) :
    (l.resolveLate ws t ack).1.departedOrder = l.departedOrder ∧
      (l.resolveLate ws t ack).1.departedBytes = l.departedBytes := by
  obtain ⟨_, _, _, hmove, -⟩ := (l.exhume ws).moveReference_eq t.tx t.departed ack
  obtain ⟨m, hm, heq | heq⟩ := l.resolveLate_cases ws t ack
  · rw [heq, hm.departedOrder, hm.departedBytes, hmove]
    exact ⟨rfl, rfl⟩
  · obtain ⟨_, _, _, hnote, -⟩ := m.noteSpuriousVerdict_eq t.packetVerdictNo
    rw [heq, hnote, hm.departedOrder, hm.departedBytes, hmove]
    exact ⟨rfl, rfl⟩

theorem resolveLate_records (ack : Option (Instant × Duration)) :
    (l.resolveLate ws t ack).1.records = l.records := by
  rw [(l.resolveLate_sameBook ws t ack).records, moveReference_records]
  rfl

theorem resolveLate_tombstones
    (ack : Option (Instant × Duration)) :
    (l.resolveLate ws t ack).1.tombstones = l.tombstones.erase ws := by
  rw [(l.resolveLate_sameBook ws t ack).tombstones, moveReference_tombstones]
  rfl

theorem resolveLate_resolves (ack : Option (Instant × Duration)) :
    Resolves l (l.resolveLate ws t ack).1 t.tx t.departed := by
  have h := ((l.exhume ws).moveReference_resolves t.tx t.departed ack).sameBook
    (l.resolveLate_sameBook ws t ack)
  exact ⟨h.nextDepIdx, h.settled, h.largestAcked⟩

/-! ### Verdicts -/

/-- The numbers a list of verdicts names. -/
def verdictSeqs (new : List LostTransmission) : List WireSeq := new.map Prod.fst

/-- `l'` is `l` after the verdicts `new`: exactly the records they name have left, each became a
tombstone (older tombstones may have been evicted), and each was counted once. -/
structure Verdicts (l l' : TransmissionLedger) (new : List LostTransmission) : Prop where
  keys : l.records.keys.Perm (verdictSeqs new ++ l'.records.keys)
  records : ∀ ws r, l'.records.get? ws = some r ↔
    l.records.get? ws = some r ∧ ws ∉ verdictSeqs new
  found : ∀ v ∈ new, ∃ r, l.records.get? v.1 = some r ∧ r.tx = v.2.1
  settled : l'.stats.settled = l.stats.settled + new.length
  tombKeys : l'.tombstones.keys.Subperm (verdictSeqs new ++ l.tombstones.keys)
  tombs : ∀ ws t, l'.tombstones.get? ws = some t → l.tombstones.get? ws = some t ∨
    ∃ r, l.records.get? ws = some r ∧ t.tx = r.tx ∧ t.departed = r.departed
  largestAcked : l'.largestAcked = l.largestAcked
  nextDepIdx : l'.nextDepIdx = l.nextDepIdx

theorem SameBook.verdicts {l : TransmissionLedger} (h : SameBook l l') : Verdicts l l' [] where
  keys := by rw [h.records]; exact List.Perm.refl _
  records := by simp [h.records, verdictSeqs]
  found := by simp
  settled := h.settled
  tombKeys := by rw [h.tombstones]; exact List.Subperm.refl _
  tombs := by
    intro ws t ht
    exact .inl (h.tombstones ▸ ht)
  largestAcked := h.largestAcked
  nextDepIdx := h.nextDepIdx

theorem Verdicts.trans {l : TransmissionLedger} {new new' : List LostTransmission}
    (h : Verdicts l m new) (h' : Verdicts m l' new') : Verdicts l l' (new ++ new') where
  keys := by
    rw [verdictSeqs, map_append, append_assoc]
    exact h.keys.trans (h'.keys.append_left _)
  records := by
    intro ws r
    rw [h'.records, h.records, verdictSeqs, verdictSeqs, verdictSeqs, map_append,
      mem_append, not_or, and_assoc]
  found := by
    intro v hv
    rcases mem_append.1 hv with hv | hv
    · exact h.found v hv
    · obtain ⟨r, hr, htx⟩ := h'.found v hv
      exact ⟨r, ((h.records _ _).1 hr).1, htx⟩
  settled := by rw [h'.settled, h.settled, length_append, Nat.add_assoc]
  tombKeys := by
    refine h'.tombKeys.trans ?_
    rw [verdictSeqs, verdictSeqs, map_append]
    refine ((refl _).append h.tombKeys).trans ?_
    rw [← append_assoc]
    exact (perm_append_comm.append_right _).subperm
  tombs := by
    intro ws t ht
    rcases h'.tombs ws t ht with hm | ⟨r, hr, hrest⟩
    · exact h.tombs ws t hm
    · exact .inr ⟨r, ((h.records _ _).1 hr).1, hrest⟩
  largestAcked := h'.largestAcked.trans h.largestAcked
  nextDepIdx := h'.nextDepIdx.trans h.nextDepIdx

/-- Evicting old tombstones writes the tombstones only. -/
theorem evictTombstones_eq (l : TransmissionLedger) :
    ∃ tombstones tombstoneOrder evictions, evictTombstones order l =
        { l with
          tombstones, tombstoneOrder
          stats := { l.stats with tombstoneEvictions := evictions } } ∧
      tombstones.keys.Subperm l.tombstones.keys ∧
      ∀ ws t, tombstones.get? ws = some t → l.tombstones.get? ws = some t := by
  fun_induction evictTombstones order l with
  | case1 | case4 => exact ⟨_, _, _, rfl, refl _, fun _ _ h => h⟩
  | case2 oldest rest l _ _ ih =>
    obtain ⟨tombs, order, evictions, heq, hkeys, hget⟩ := ih
    exact ⟨tombs, order, evictions, heq, hkeys.trans (keys_erase_subperm _ _),
      fun ws t h => (get?_of_get?_erase (hget ws t h)).2⟩
  | case3 _ _ _ _ _ ih => exact ih

theorem countVerdict_settled (s : LedgerStats) (reason : LossReason) (departed : Option Instant) :
    (countVerdict s reason departed).settled = s.settled + 1 := by
  cases reason <;> simp only [countVerdict, settled] <;> omega

variable (reason : LossReason)

theorem numberVerdict_sameBook : SameBook l (l.numberVerdict reason).1 := by
  unfold numberVerdict
  split_ifs <;> exact ⟨rfl, rfl, rfl, rfl, rfl⟩

theorem entomb_spec :
    (l.entomb ws t).records = l.records ∧
      (l.entomb ws t).stats.settled = l.stats.settled ∧
      (l.entomb ws t).tombstones.keys.Subperm (ws :: l.tombstones.keys) ∧
      (∀ ws' t', (l.entomb ws t).tombstones.get? ws' = some t' →
        (ws' = ws ∧ t' = t) ∨ l.tombstones.get? ws' = some t') ∧
      (l.entomb ws t).largestAcked = l.largestAcked ∧
      (l.entomb ws t).nextDepIdx = l.nextDepIdx := by
  obtain ⟨_, _, _, heq, hkeys, hkept⟩ := evictTombstones_eq (l.tombstoneOrder ++ [ws])
    { l with tombstones := l.tombstones.insert ws t }
  rw [entomb, heq]
  refine ⟨rfl, rfl, hkeys.trans ?_, fun ws' t' ht => ?_, rfl, rfl⟩
  · rw [keys_insert]
    exact (erase_sublist.cons_cons ws).subperm
  · have hget := hkept ws' t' ht
    rw [get?_insert] at hget
    split_ifs at hget with hws
    · exact .inl ⟨hws, (Option.some.inj hget).symm⟩
    · exact .inr hget

theorem bury_verdicts {ws : WireSeq} {r : Record}
    (h : l.records.get? ws = some r) :
    Verdicts l (l.bury ws r reason) [(ws, r.tx, reason)] := by
  -- numbering the verdict touches neither the records nor the tombstones
  have hb := (l.strike ws r reason).numberVerdict_sameBook reason
  set m := (l.strike ws r reason).numberVerdict reason with hm
  have hrec : m.1.records = l.records.erase ws := by rw [hb.records]; simp [strike]
  have htomb : m.1.tombstones = l.tombstones := by rw [hb.tombstones]; simp [strike]
  have hbury : l.bury ws r reason = m.1.entomb ws (l.tombstoneOf r reason m.2) := rfl
  obtain ⟨h1, h2, h3, h4, h5, h6⟩ := m.1.entomb_spec ws (l.tombstoneOf r reason m.2)
  rw [hbury]
  refine ⟨?_, fun ws' r' => ?_, by simp [h], ?_, ?_, fun ws' t' ht' => ?_, ?_, ?_⟩
  · rw [h1, hrec]
    exact keys_perm_cons_erase h
  · rw [h1, hrec, get?_erase]
    by_cases hw : ws' = ws <;> simp [hw, verdictSeqs]
  · rw [h2, hb.settled]
    simp [strike, countVerdict_settled]
  · rw [← htomb]
    exact h3
  · rcases h4 ws' t' ht' with ⟨rfl, rfl⟩ | hold
    · exact .inr ⟨r, h, rfl, rfl⟩
    · exact .inl (htomb ▸ hold)
  · rw [h5, hb.largestAcked]
    simp [strike]
  · rw [h6, hb.nextDepIdx]
    simp [strike]

/-- A verdict removes its record, if it is outstanding, and reports it. -/
theorem declareLost_verdicts (lost : List LostTransmission) :
    ∃ new, (l.declareLost ws reason lost).2 = lost ++ new ∧
      Verdicts l (l.declareLost ws reason lost).1 new ∧
      ∀ v ∈ new, v.1 = ws ∧ v.2.2 = reason := by
  unfold declareLost
  cases h : l.records.get? ws with
  | none => exact ⟨[], by simp, (SameBook.refl l).verdicts, by simp⟩
  | some r => exact ⟨_, rfl, l.bury_verdicts reason h, by simp⟩

/-- A verdict of the walk is on a departed record older than the reference, and not a probe's. -/
theorem judge_eq_lost {p : DetectParams} {stepped : ℕ} {ws : WireSeq} {reason : LossReason}
    {branch : Option ReoBranch} (h : l.judge p stepped ws = .lost reason branch) :
    reason ≠ .pto ∧ ∃ r, l.records.get? ws = some r ∧ r.departed.isSome ∧
      r.tx.depIdx.getD (2 ^ 64 - 1) < p.largestIdx := by
  unfold judge at h
  cases hr : l.records.get? ws with
  | none => simp [hr] at h
  | some r =>
    cases hd : r.departed with
    | none => simp [hr, hd] at h
    | some at_ =>
      by_cases hidx : r.tx.depIdx.getD (2 ^ 64 - 1) ≥ p.largestIdx
      · simp only [hr, hd, if_pos hidx, reduceCtorEq] at h
      simp only [hr, hd, if_neg hidx] at h
      refine ⟨?_, r, rfl, by simp [hd], by omega⟩
      cases hb : l.packetBranch p (r.tx.depIdx.getD (2 ^ 64 - 1)) at_ with
      | some b =>
        simp only [hb, Judgement.lost.injEq] at h
        rw [← h.1]
        decide
      | none =>
        simp only [hb] at h
        split_ifs at h <;> (injection h with h1 h2; rw [← h1]; decide)

/-- What the walk reports is what it removed, and all of it had departed. -/
theorem detectWalk_verdicts (p : DetectParams) (rest passed : List WireSeq) (stepped : ℕ)
    (l : TransmissionLedger) (lost : List LostTransmission) :
    ∃ new, (detectWalk p passed rest stepped l lost).2 = lost ++ new ∧
      Verdicts l (detectWalk p passed rest stepped l lost).1 new ∧
      ∀ v ∈ new, v.2.2 ≠ .pto ∧ ∃ r, l.records.get? v.1 = some r ∧ r.departed.isSome := by
  fun_induction detectWalk p passed rest stepped l lost with
  | case1 | case3 => exact ⟨[], by simp, SameBook.verdicts ⟨rfl, rfl, rfl, rfl, rfl⟩, by simp⟩
  | case2 _ _ _ _ _ _ _ ih => exact ih
  | case4 _ _ _ _ _ _ _ ih => exact ih
  | case5 passed ws rest stepped l lost reason branch hj l1 l2 lost2 hlost ih =>
    obtain ⟨hpto, r, hr, hdep, -⟩ := l.judge_eq_lost hj
    -- counting the branch, then the verdict itself, then the rest of the walk
    have hbranch : SameBook l l1 := by
      refine ⟨rfl, rfl, rfl, rfl, ?_⟩
      rcases branch with _ | _ | _ | _ <;> rfl
    obtain ⟨new1, hnew1, hv1, hw1⟩ := l1.declareLost_verdicts ws reason lost
    obtain ⟨new2, hnew2, hv2, hw2⟩ := ih
    rw [hlost] at hnew1 hv1
    refine ⟨new1 ++ new2, ?_, hbranch.verdicts.trans (hv1.trans hv2), fun v hv => ?_⟩
    · rw [← append_assoc, ← hnew1]
      exact hnew2
    · rcases mem_append.1 hv with hv | hv
      · obtain ⟨hws, hreason⟩ := hw1 v hv
        exact ⟨hreason ▸ hpto, r, hws ▸ hr, hdep⟩
      · obtain ⟨hne, r', hr', hdep'⟩ := hw2 v hv
        exact ⟨hne, r', ((hv1.records _ _).1 hr').1, hdep'⟩

theorem compactIfSparse_sameBook : SameBook l l.compactIfSparse := by
  obtain ⟨_, _, heq⟩ := l.compactIfSparse_eq
  rw [heq]
  constructor <;> rfl

/-- `detect_losses_at` reports exactly the records it removes, and all of them had departed. -/
theorem detectLossesAt_verdicts (now : Instant) (thr : Duration) :
    Verdicts l (l.detectLossesAt now thr).1 (l.detectLossesAt now thr).2 ∧
      ∀ v ∈ (l.detectLossesAt now thr).2,
        v.2.2 ≠ .pto ∧ ∃ r, l.records.get? v.1 = some r ∧ r.departed.isSome := by
  have hstart := (l.noteThreshold_aside thr).sameBook
  unfold detectLossesAt
  cases hlarge : l.largestAcked with
  | none => exact ⟨hstart.verdicts, by simp⟩
  | some largestIdx =>
    simp only
    obtain ⟨new, hnew, hv, hw⟩ := detectWalk_verdicts
      ((l.noteThreshold thr).detectParams now thr largestIdx) (l.noteThreshold thr).departedOrder
      [] 0 (l.noteThreshold thr) []
    rw [hnew]
    set walked := detectWalk ((l.noteThreshold thr).detectParams now thr largestIdx) []
      (l.noteThreshold thr).departedOrder 0 (l.noteThreshold thr) []
    have hend : SameBook walked.1 (walked.1.noteRecovery now thr new).compactIfSparse :=
      (walked.1.noteRecovery_aside now thr new).sameBook.trans (compactIfSparse_sameBook _)
    refine ⟨?_, hw⟩
    simpa using hstart.verdicts.trans (hv.trans hend.verdicts)

theorem declareLostByPto_verdicts (ws : WireSeq) :
    let r := l.declareLostByPto ws
    (r.2 = none ∧ r.1 = l) ∨ ∃ tx, r.2 = some tx ∧ Verdicts l r.1 [(ws, tx, .pto)] := by
  unfold declareLostByPto declareLost
  cases h : l.records.get? ws with
  | none => exact .inl ⟨rfl, rfl⟩
  | some r => exact .inr ⟨_, rfl, l.bury_verdicts .pto h⟩

/-! ### Recording -/

/-- `l'` is `l` after evictions: some records left, and each was counted. -/
structure Evicts (l l' : TransmissionLedger) : Prop where
  records : ∀ ws r, l'.records.get? ws = some r → l.records.get? ws = some r
  keys : l'.records.keys.Subperm l.records.keys
  balance : l'.stats.settled + l'.records.size = l.stats.settled + l.records.size
  tombstones : l'.tombstones = l.tombstones
  largestAcked : l'.largestAcked = l.largestAcked
  nextDepIdx : l'.nextDepIdx = l.nextDepIdx

theorem SameBook.evicts {l : TransmissionLedger} (h : SameBook l l') : Evicts l l' where
  records := fun _ _ hr => h.records ▸ hr
  keys := by rw [h.records]
  balance := by rw [h.settled, h.records]
  tombstones := h.tombstones
  largestAcked := h.largestAcked
  nextDepIdx := h.nextDepIdx

theorem Evicts.trans {l : TransmissionLedger} (h : Evicts l m) (h' : Evicts m l') :
    Evicts l l' where
  records := fun ws r hr => h.records ws r (h'.records ws r hr)
  keys := h'.keys.trans h.keys
  balance := h'.balance.trans h.balance
  tombstones := h'.tombstones.trans h.tombstones
  largestAcked := h'.largestAcked.trans h.largestAcked
  nextDepIdx := h'.nextDepIdx.trans h.nextDepIdx

theorem evictOldest_evicts (oldest : WireSeq) : Evicts l (l.evictOldest oldest) := by
  unfold evictOldest
  cases h : l.records.get? oldest with
  | none => exact (SameBook.refl l).evicts
  | some r =>
    have hsize : l.records.size = (l.records.erase oldest).size + 1 :=
      (keys_perm_cons_erase h).length_eq
    refine ⟨fun ws r' hr' => ?_, ?_, ?_, by simp, by simp, by simp⟩
    · simp only [leave_records] at hr'
      exact (get?_of_get?_erase hr').2
    · simpa using keys_erase_subperm _ _
    · simp only [leave_records, leave_stats, settled]
      omega

/-- What evicting a record and writing the order preserve, the eviction loop does. -/
theorem evictOver_inv {P : TransmissionLedger → Prop}
    (horder : ∀ l order, P l → P { l with order })
    (hevict : ∀ l ws, P l → P (evictOldest l ws)) {l : TransmissionLedger} (h : P l) :
    P (evictOver order l) := by
  fun_induction evictOver order l with
  | case1 l => exact horder l _ h
  | case2 oldest rest l _ ih => exact ih (hevict l oldest h)
  | case3 oldest rest l => exact horder l _ h

theorem evictOver_evicts (l : TransmissionLedger) : Evicts l (evictOver order l) :=
  evictOver_inv order (fun _ _ h => h.trans (SameBook.evicts ⟨rfl, rfl, rfl, rfl, rfl⟩))
    (fun m ws h => h.trans (m.evictOldest_evicts ws)) (SameBook.refl l).evicts

theorem evictOver_records (h : l.records.size ≤ l.capacity) :
    (evictOver order l).records = l.records := by
  cases order with
  | nil => rfl
  | cons oldest rest =>
    unfold evictOver
    rw [if_neg (by omega)]

section PutRecord

variable (ws : WireSeq) (r : Record)

@[simp] theorem putRecord_records : (l.putRecord ws r).records = l.records.insert ws r := by
  unfold putRecord; split <;> simp

@[simp] theorem putRecord_tombstones : (l.putRecord ws r).tombstones = l.tombstones := by
  unfold putRecord; split <;> simp

@[simp] theorem putRecord_capacity : (l.putRecord ws r).capacity = l.capacity := by
  unfold putRecord; split <;> simp

@[simp] theorem putRecord_largestAcked : (l.putRecord ws r).largestAcked = l.largestAcked := by
  unfold putRecord; split <;> simp

@[simp] theorem putRecord_nextDepIdx : (l.putRecord ws r).nextDepIdx = l.nextDepIdx := by
  unfold putRecord; split <;> simp

/-- Storing a record adds it, or replaces one that then counts as evicted. -/
theorem putRecord_balance :
    (l.putRecord ws r).stats.settled + (l.putRecord ws r).records.size =
      l.stats.settled + l.records.size + 1 := by
  rw [putRecord_records]
  unfold putRecord
  cases h : l.records.get? ws with
  | none =>
    simp only [size, keys_insert_of_get?_eq_none _ h, length_cons]
    omega
  | some old =>
    have hsize : (l.records.insert ws r).size = l.records.size :=
      (keys_insert_perm r h).length_eq
    simp only [leave_stats, settled, hsize]
    omega

end PutRecord

/-- The record `record` stores: not departed, whatever the caller put in the stamps. -/
def freshRecord (at_ : Instant) (tx : Transmission) : Record :=
  { recordedAt := at_, departed := none, tx := { tx with departUs := none, depIdx := none } }

theorem record_evicts (ws : WireSeq) (at_ : Instant) (tx : Transmission) :
    Evicts (l.putRecord ws (freshRecord at_ tx)) (l.record ws at_ tx) :=
  (evictOver_evicts _ _).trans (compactIfSparse_sameBook _).evicts

/-- An outstanding record after `record` is the new one, or was outstanding before. -/
theorem record_get? {ws ws' : WireSeq} {at_ : Instant} {tx : Transmission} {r : Record}
    (h : (l.record ws at_ tx).records.get? ws' = some r) :
    (ws' = ws ∧ r = freshRecord at_ tx) ∨ (ws' ≠ ws ∧ l.records.get? ws' = some r) := by
  have hput := (l.record_evicts ws at_ tx).records _ _ h
  rw [putRecord_records, get?_insert] at hput
  split_ifs at hput with hws
  · exact .inl ⟨hws, (Option.some.inj hput).symm⟩
  · exact .inr ⟨hws, hput⟩

theorem record_keys (ws : WireSeq) (at_ : Instant) (tx : Transmission) :
    (l.record ws at_ tx).records.keys.Subperm (ws :: l.records.keys) := by
  refine (l.record_evicts ws at_ tx).keys.trans ?_
  rw [putRecord_records, keys_insert]
  exact (erase_sublist.cons_cons ws).subperm

theorem record_balance (ws : WireSeq) (at_ : Instant) (tx : Transmission) :
    (l.record ws at_ tx).stats.settled + (l.record ws at_ tx).records.size =
      l.stats.settled + l.records.size + 1 :=
  (l.record_evicts ws at_ tx).balance.trans (l.putRecord_balance ws _)

/-- Below the capacity `record` only stores. -/
theorem record_records {ws : WireSeq} {at_ : Instant} {tx : Transmission}
    (h : l.records.size < l.capacity) :
    (l.record ws at_ tx).records = l.records.insert ws (freshRecord at_ tx) := by
  have hsize : (l.records.insert ws (freshRecord at_ tx)).size ≤ l.records.size + 1 := by
    rw [size, keys_insert, length_cons]
    exact Nat.succ_le_succ length_erase_le
  unfold record
  rw [compactIfSparse_records, evictOver_records]
  · exact putRecord_records l ws _
  · rw [putRecord_records, putRecord_capacity]
    exact hsize.trans h

/-- The capacity is fixed when the ledger is made. -/
theorem record_capacity (ws : WireSeq) (at_ : Instant) (tx : Transmission) :
    (l.record ws at_ tx).capacity = l.capacity := by
  have hevict : ∀ order (l : TransmissionLedger), (evictOver order l).capacity = l.capacity := by
    intro order l
    refine evictOver_inv order (P := (·.capacity = l.capacity)) (fun _ _ h => h) ?_ rfl
    intro m ws h
    unfold evictOldest
    split <;> simpa using h
  unfold record
  rw [compactIfSparse_capacity, hevict, putRecord_capacity]

/-! ### The other operations -/

theorem nextLossTime_sameBook (thr : Duration) : SameBook l (l.nextLossTime thr).1 := by
  unfold nextLossTime
  cases l.largestAcked <;> exact ⟨rfl, rfl, rfl, rfl, rfl⟩

theorem trimDeparted_sameBook : SameBook l l.trimDeparted := ⟨rfl, rfl, rfl, rfl, rfl⟩

theorem scanOutstanding_sameBook (cursor n maxScan : ℕ) :
    SameBook l (l.scanOutstanding cursor n maxScan).1 := by
  unfold scanOutstanding
  split_ifs
  · exact l.trimDeparted_sameBook
  · exact SameBook.refl l

/-- `mark_departed` does nothing, or stamps an outstanding record with the next index. -/
theorem markDeparted_spec (ws : WireSeq) (at_ : Instant) (us : ℕ) :
    let m := l.markDeparted ws at_ us
    (m.2 = false ∧ m.1 = l) ∨
      m.2 = true ∧ ∃ r, l.records.get? ws = some r ∧ r.departed = none ∧
        m.1.records = l.records.insert ws
          { r with
            departed := some at_
            tx := { r.tx with departUs := some us, depIdx := some l.nextDepIdx } } ∧
        m.1.tombstones = l.tombstones ∧ m.1.largestAcked = l.largestAcked ∧
        m.1.nextDepIdx = l.nextDepIdx + 1 ∧ m.1.stats.settled = l.stats.settled := by
  dsimp only
  unfold markDeparted
  cases h : l.records.get? ws with
  | none => exact .inl ⟨rfl, rfl⟩
  | some r =>
    cases hd : r.departed with
    | some d => exact .inl (by simp [hd])
    | none =>
      refine .inr ⟨by simp [hd], r, rfl, hd, ?_⟩
      simp [hd, settled]

/-- Taking a record back closes it, with one of the two `forgotten` counters. -/
structure Forgets (l l' : TransmissionLedger) (ws : WireSeq) : Prop where
  outstanding : l.Outstanding ws
  records : l'.records = l.records.erase ws
  tombstones : l'.tombstones = l.tombstones
  largestAcked : l'.largestAcked = l.largestAcked
  nextDepIdx : l'.nextDepIdx = l.nextDepIdx
  settled : l'.stats.settled = l.stats.settled + 1

theorem takeUndeparted_spec (ws : WireSeq) :
    ((l.takeUndeparted ws).2 = none ∧ (l.takeUndeparted ws).1 = l) ∨
      ((l.takeUndeparted ws).2.isSome ∧ Forgets l (l.takeUndeparted ws).1 ws) := by
  unfold takeUndeparted
  cases h : l.records.get? ws with
  | none => exact .inl ⟨rfl, rfl⟩
  | some r =>
    simp only
    split_ifs
    · exact .inl ⟨rfl, rfl⟩
    · refine .inr ⟨rfl, ⟨r, h⟩, rfl, rfl, rfl, rfl, ?_⟩
      simp only [settled]
      omega

theorem forgetOutstanding_spec (ws : WireSeq) :
    ((l.forgetOutstanding ws).2 = none ∧ (l.forgetOutstanding ws).1 = l) ∨
      ((l.forgetOutstanding ws).2.isSome ∧ Forgets l (l.forgetOutstanding ws).1 ws) := by
  unfold forgetOutstanding
  cases h : l.records.get? ws with
  | none => exact .inl ⟨rfl, rfl⟩
  | some r =>
    refine .inr ⟨rfl, ⟨r, h⟩, by simp, by simp, by simp, by simp, ?_⟩
    simp only [leave_stats, settled]
    omega

end TransmissionLedger

end Ghostframe.Transport
