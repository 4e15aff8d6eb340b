import Ghostframe.Transport.LedgerInOrder

/-!
# The departure order of the ledger

`departed_order` lists the departed transmissions, oldest first, next to entries of
records that have been resolved since.

* `Thins l l'`: `l'` has some of the records of `l`, and its departure order is that
  of `l` without some entries that are not outstanding; every operation but recording,
  departing and a reset is of this form;
* `DepartureOrder`: with distinct numbers, the departed records are listed once each,
  in the order of their departure indices; `run_departureOrder` for every run.
-/

namespace Ghostframe.Transport

open Dict List

namespace TransmissionLedger

variable (l : TransmissionLedger)

/-! ### Operations that leave the departure order alone -/

@[simp] theorem leave_departedOrder (r : Record) : (l.leave r).departedOrder = l.departedOrder := by
  unfold leave; split <;> rfl

theorem evictOver_departedOrder (order : List WireSeq) (l : TransmissionLedger) :
    (evictOver order l).departedOrder = l.departedOrder := by
  refine evictOver_inv order (P := (·.departedOrder = l.departedOrder)) (fun _ _ h => h) ?_ rfl
  intro m ws h
  unfold evictOldest
  split <;> simpa using h

variable (ws : WireSeq) (r : Record)

@[simp] theorem putRecord_departedOrder :
    (l.putRecord ws r).departedOrder = l.departedOrder := by
  unfold putRecord; split <;> simp

theorem resolveLive_departedOrder (ack : Option (Instant × Duration)) :
    (l.resolveLive ws r ack).departedOrder = l.departedOrder := by
  obtain ⟨_, _, _, heq, -⟩ := { l with records := l.records.erase ws }.moveReference_eq
    r.tx r.departed ack
  rw [resolveLive, leave_departedOrder, heq]

/-- What a verdict leaves alone: the departure order and the rules of the walk. -/
structure SameRules (l l' : TransmissionLedger) : Prop where
  departedOrder : l'.departedOrder = l.departedOrder
  nextDepIdx : l'.nextDepIdx = l.nextDepIdx
  probeBursts : l'.probeBursts = l.probeBursts
  kPkt : l'.kPkt = l.kPkt
  reoDepth : l'.reoDepth = l.reoDepth

theorem SameRules.trans {l l' l'' : TransmissionLedger} (h : SameRules l l')
    (h' : SameRules l' l'') : SameRules l l'' :=
  ⟨h'.departedOrder.trans h.departedOrder, h'.nextDepIdx.trans h.nextDepIdx,
    h'.probeBursts.trans h.probeBursts, h'.kPkt.trans h.kPkt, h'.reoDepth.trans h.reoDepth⟩

theorem leave_sameRules : SameRules l (l.leave r) := by
  unfold leave
  split <;> exact ⟨rfl, rfl, rfl, rfl, rfl⟩

theorem evictTombstones_sameRules (order : List WireSeq) (l : TransmissionLedger) :
    SameRules l (evictTombstones order l) := by
  obtain ⟨_, _, _, heq, -⟩ := evictTombstones_eq order l
  rw [heq]
  exact ⟨rfl, rfl, rfl, rfl, rfl⟩

theorem bury_sameRules (reason : LossReason) : SameRules l (l.bury ws r reason) := by
  have hstrike : SameRules l (l.strike ws r reason) := by
    have hleave := leave_sameRules { l with records := l.records.erase ws } r
    exact ⟨hleave.departedOrder, hleave.nextDepIdx, hleave.probeBursts, hleave.kPkt,
      hleave.reoDepth⟩
  have hnumber :
      SameRules (l.strike ws r reason) ((l.strike ws r reason).numberVerdict reason).1 := by
    unfold numberVerdict
    split_ifs <;> exact ⟨rfl, rfl, rfl, rfl, rfl⟩
  refine hstrike.trans (hnumber.trans ?_)
  unfold bury entomb
  refine SameRules.trans ?_ (evictTombstones_sameRules _ _)
  exact ⟨rfl, rfl, rfl, rfl, rfl⟩

theorem declareLost_sameRules (reason : LossReason) (lost : List LostTransmission) :
    SameRules l (l.declareLost ws reason lost).1 := by
  unfold declareLost
  split
  · exact ⟨rfl, rfl, rfl, rfl, rfl⟩
  · exact l.bury_sameRules _ _ _

/-! ### Thinning the departure order -/

/-- `l'` has some of the records of `l`, and its departure order is that of `l` without some
entries that are not outstanding. -/
structure Thins (l l' : TransmissionLedger) : Prop where
  records : ∀ ws r, l'.records.get? ws = some r → l.records.get? ws = some r
  order : l'.departedOrder.Sublist l.departedOrder
  kept : ∀ ws ∈ l.departedOrder, l'.isDeparted ws → ws ∈ l'.departedOrder
  nextDepIdx : l'.nextDepIdx = l.nextDepIdx

theorem isDeparted_iff {ws : WireSeq} :
    l.isDeparted ws ↔ ∃ r, l.records.get? ws = some r ∧ r.departed.isSome := by
  unfold isDeparted
  cases h : l.records.get? ws <;> simp

variable {l} {m l' : TransmissionLedger}

theorem Thins.isDeparted (h : Thins l l') {ws : WireSeq} (hd : l'.isDeparted ws) :
    l.isDeparted ws := by
  obtain ⟨r, hr, hdep⟩ := (isDeparted_iff _).1 hd
  exact (isDeparted_iff _).2 ⟨r, h.records ws r hr, hdep⟩

theorem Thins.trans (h : Thins l m) (h' : Thins m l') : Thins l l' where
  records := fun ws r hr => h.records ws r (h'.records ws r hr)
  order := h'.order.trans h.order
  kept := fun ws hws hd => h'.kept ws (h.kept ws hws (h'.isDeparted hd)) hd
  nextDepIdx := h'.nextDepIdx.trans h.nextDepIdx

theorem Thins.of_order_eq (hrec : ∀ ws r, l'.records.get? ws = some r → l.records.get? ws = some r)
    (horder : l'.departedOrder = l.departedOrder) (hnext : l'.nextDepIdx = l.nextDepIdx) :
    Thins l l' :=
  ⟨hrec, horder ▸ List.Sublist.refl _, fun _ hws _ => horder ▸ hws, hnext⟩

theorem Thins.of_aside (h : Aside l l') : Thins l l' :=
  .of_order_eq (fun _ _ hr => h.records ▸ hr) h.departedOrder h.nextDepIdx

theorem Thins.filter (l : TransmissionLedger) :
    Thins l { l with departedOrder := l.departedOrder.filter fun w => l.isDeparted w } where
  records := fun _ _ hr => hr
  order := filter_sublist
  kept := fun _ hws hd => mem_filter.2 ⟨hws, hd⟩
  nextDepIdx := rfl

theorem compactIfSparse_thins (l : TransmissionLedger) : Thins l l.compactIfSparse := by
  unfold compactIfSparse
  simp only
  have hfirst : ∀ order, Thins l { l with order := order } := fun _ =>
    .of_order_eq (fun _ _ hr => hr) rfl rfl
  split_ifs
  · exact (hfirst _).trans (Thins.filter _)
  · exact hfirst _
  · exact Thins.filter _
  · exact hfirst l.order

theorem trimDeparted_thins (l : TransmissionLedger) : Thins l l.trimDeparted where
  records := fun _ _ hr => hr
  order := (List.rdropWhile_prefix _ _).sublist
  kept := by
    intro ws hws hd
    by_contra hnot
    rw [← rdropWhile_append_rtakeWhile (p := fun ws => !l.isDeparted ws) (l := l.departedOrder),
      mem_append] at hws
    have hdead := mem_rtakeWhile_imp (hws.resolve_left hnot)
    have hlive : l.isDeparted ws := hd
    simp [hlive] at hdead
  nextDepIdx := rfl

/-- What a walk leaves of the order: `passed` entries are kept, or dropped at the front. -/
theorem pass_sublist (passed : List WireSeq) (ws : WireSeq) :
    (pass passed ws).Sublist (passed ++ [ws]) := by
  unfold pass
  split_ifs
  · exact nil_sublist _
  · exact List.Sublist.refl _

theorem mem_pass {passed : List WireSeq} {ws w : WireSeq} (hw : w ∈ passed) :
    w ∈ pass passed ws := by
  unfold pass
  rw [if_neg (ne_nil_of_mem hw)]
  exact mem_append_left _ hw

/-- One entry that is not outstanding any more is passed by a walk. -/
theorem Thins.pass {ws : WireSeq} (passed rest : List WireSeq)
    (hrec : ∀ w r, l'.records.get? w = some r → l.records.get? w = some r)
    (hdead : ¬ l'.isDeparted ws) (hnext : l'.nextDepIdx = l.nextDepIdx) :
    Thins { l with departedOrder := passed ++ ws :: rest }
      { l' with departedOrder := TransmissionLedger.pass passed ws ++ rest } where
  records := hrec
  order := by
    have h := (pass_sublist passed ws).append_right rest
    rwa [append_assoc, singleton_append] at h
  kept := by
    intro w hw hd
    have hne : w ≠ ws := by
      rintro rfl
      exact hdead hd
    show w ∈ TransmissionLedger.pass passed ws ++ rest
    rcases mem_append.1 hw with hp | hr
    · exact mem_append_left _ (mem_pass hp)
    · exact mem_append_right _ ((mem_cons.1 hr).resolve_left hne)
  nextDepIdx := hnext

theorem judge_eq_dead {p : DetectParams} {stepped : ℕ} {ws : WireSeq}
    (h : l.judge p stepped ws = .dead) : ¬ l.isDeparted ws := by
  intro hd
  obtain ⟨r, hr, hdep⟩ := (isDeparted_iff l).1 hd
  obtain ⟨at_, hat⟩ := Option.isSome_iff_exists.1 hdep
  unfold judge at h
  simp only [hr, hat] at h
  generalize l.packetBranch p (r.tx.depIdx.getD (2 ^ 64 - 1)) at_ = branch at h
  cases branch <;> simp only at h <;> split_ifs at h

/-- A verdict takes the record of `ws` away and no other. -/
theorem declareLost_get? (l : TransmissionLedger) (ws : WireSeq) (reason : LossReason)
    (lost : List LostTransmission) (w : WireSeq) :
    (l.declareLost ws reason lost).1.records.get? w =
      if w = ws then none else l.records.get? w := by
  unfold declareLost
  cases h : l.records.get? ws with
  | none =>
    split_ifs with hw
    · exact hw ▸ h
    · rfl
  | some r =>
    have hrec : (l.bury ws r reason).records = l.records.erase ws := by
      unfold bury
      rw [(entomb_spec _ _ _).1, (numberVerdict_sameBook _ _).records]
      simp [strike]
    rw [hrec, get?_erase]

/-- **The walk of `detect_losses_at` thins the order.** -/
theorem detectWalk_thins (p : DetectParams) (rest passed : List WireSeq) (stepped : ℕ)
    (l : TransmissionLedger) (lost : List LostTransmission) :
    Thins { l with departedOrder := passed ++ rest }
        (detectWalk p passed rest stepped l lost).1 := by
  fun_induction detectWalk p passed rest stepped l lost with
  | case1 => exact .of_order_eq (fun _ _ hr => hr) (append_nil _).symm rfl
  | case2 passed ws rest stepped l lost hj ih =>
    exact (Thins.pass passed rest (fun _ _ hr => hr) (judge_eq_dead hj) rfl).trans ih
  | case3 => exact .of_order_eq (fun _ _ hr => hr) rfl rfl
  | case4 passed ws rest stepped l lost hj ih => rwa [append_assoc, singleton_append] at ih
  | case5 passed ws rest stepped l lost reason branch hj l1 l2 lost2 hlost ih =>
    have hget := l1.declareLost_get? ws reason lost
    have hrules := l1.declareLost_sameRules ws reason lost
    rw [hlost] at hget hrules
    refine Thins.trans (Thins.pass passed rest ?_ ?_ hrules.nextDepIdx) ih
    · intro w r hr
      rw [hget] at hr
      split_ifs at hr
      exact hr
    · intro hd
      obtain ⟨r, hr, -⟩ := (isDeparted_iff _).1 hd
      rw [hget, if_pos rfl] at hr
      cases hr

theorem nextLossWalk_thins (l : TransmissionLedger) (thr reo : Duration) (largestIdx : ℕ)
    (rest : List WireSeq) : ∀ (passed : List WireSeq) (stepped : ℕ) (best : Option Instant),
      Thins { l with departedOrder := passed ++ rest }
        { l with departedOrder :=
            (l.nextLossWalk thr reo largestIdx passed rest stepped best).1 } := by
  induction rest with
  | nil =>
    intro passed stepped best
    exact .of_order_eq (fun _ _ hr => hr) (by simp [nextLossWalk]) rfl
  | cons ws rest ih =>
    intro passed stepped best
    unfold nextLossWalk
    cases hr : (l.records.get? ws).bind fun r => r.departed.map fun at_ => (r, at_) with
    | none =>
      refine (Thins.pass passed rest (fun _ _ hr => hr) ?_ rfl).trans (ih _ _ _)
      intro hd
      obtain ⟨r, hget, hdep⟩ := (isDeparted_iff l).1 hd
      obtain ⟨at_, hat⟩ := Option.isSome_iff_exists.1 hdep
      simp [hget, hat] at hr
    | some e =>
      obtain ⟨r, at_⟩ := e
      simp only
      split_ifs
      all_goals first
        | exact .of_order_eq (fun _ _ hr => hr) rfl rfl
        | exact append_cons passed ws rest ▸ ih _ _ _

theorem detectLossesAt_thins (l : TransmissionLedger) (now : Instant) (thr : Duration) :
    Thins l (l.detectLossesAt now thr).1 := by
  have hstart : Thins l (l.noteThreshold thr) := .of_order_eq (fun _ _ hr => hr) rfl rfl
  unfold detectLossesAt
  cases l.largestAcked with
  | none => exact hstart
  | some m =>
    have hwalk := detectWalk_thins ((l.noteThreshold thr).detectParams now thr m)
      (l.noteThreshold thr).departedOrder [] 0 (l.noteThreshold thr) []
    refine (hstart.trans hwalk).trans ?_
    exact (Thins.of_aside (noteRecovery_aside _ _ _ _)).trans (compactIfSparse_thins _)

theorem nextLossTime_thins (l : TransmissionLedger) (thr : Duration) :
    Thins l (l.nextLossTime thr).1 := by
  have hstart : Thins l (l.noteThreshold thr) := .of_order_eq (fun _ _ hr => hr) rfl rfl
  unfold nextLossTime
  cases l.largestAcked with
  | none => exact hstart
  | some m =>
    have hwalk := (l.noteThreshold thr).nextLossWalk_thins thr ((l.noteThreshold thr).reoAt thr) m
      (l.noteThreshold thr).departedOrder [] 0 none
    exact hstart.trans hwalk

theorem resolveAt_thins (l : TransmissionLedger) (ws : WireSeq)
    (ack : Option (Instant × Duration)) : Thins l (l.resolveAt ws ack).1 := by
  unfold resolveAt
  cases hr : l.records.get? ws with
  | some r =>
    refine .of_order_eq ?_ (resolveLive_departedOrder l ws r ack)
      (l.resolveLive_resolves ws r ack).nextDepIdx
    intro w r' hr'
    rw [resolveLive_records] at hr'
    exact (get?_of_get?_erase hr').2
  | none =>
    cases ht : l.tombstones.get? ws with
    | some t =>
      refine .of_order_eq ?_ (l.resolveLate_departed ws t ack).1
        (l.resolveLate_resolves ws t ack).nextDepIdx
      intro w r hr'
      rwa [resolveLate_records] at hr'
    | none => exact .of_order_eq (fun _ _ hr => hr) rfl rfl

theorem declareLostByPto_thins (l : TransmissionLedger) (ws : WireSeq) :
    Thins l (l.declareLostByPto ws).1 := by
  have hrules := l.declareLost_sameRules ws .pto []
  refine .of_order_eq ?_ hrules.departedOrder hrules.nextDepIdx
  intro w r hr
  have hget := l.declareLost_get? ws .pto [] w
  rw [show (l.declareLostByPto ws).1 = (l.declareLost ws .pto []).1 from rfl, hget] at hr
  split_ifs at hr
  exact hr

theorem takeUndeparted_thins (l : TransmissionLedger) (ws : WireSeq) :
    Thins l (l.takeUndeparted ws).1 := by
  unfold takeUndeparted
  split
  · exact .of_order_eq (fun _ _ hr => hr) rfl rfl
  · split_ifs
    · exact .of_order_eq (fun _ _ hr => hr) rfl rfl
    · exact .of_order_eq (fun _ _ hr => (get?_of_get?_erase hr).2) rfl rfl

theorem forgetOutstanding_thins (l : TransmissionLedger) (ws : WireSeq) :
    Thins l (l.forgetOutstanding ws).1 := by
  unfold forgetOutstanding
  split
  · exact .of_order_eq (fun _ _ hr => hr) rfl rfl
  · refine .of_order_eq ?_ (by simp) (by simp)
    intro w r hr
    simp only [leave_records] at hr
    exact (get?_of_get?_erase hr).2

end TransmissionLedger

open TransmissionLedger

open Thins

/-- The operations that add no record and no departure, within a session. -/
def LedgerOp.Thinning : LedgerOp → Prop
  | .record _ _ _ => False
  | .markDeparted _ _ _ => False
  | .resetSession => False
  | _ => True

/-- **What else an operation does to the records and the departure order.** -/
theorem ledgerStep_thins (l : TransmissionLedger) {op : LedgerOp} (hop : op.Thinning) :
    Thins l (ledgerStep l op) := by
  cases op with
  | record | markDeparted | resetSession => exact hop.elim
  | resolveAt ws ack => exact l.resolveAt_thins ws ack
  | detectLossesAt now thr => exact l.detectLossesAt_thins now thr
  | declareLostByPto ws => exact l.declareLostByPto_thins ws
  | forgetUndeparted ws | takeUndeparted ws => exact l.takeUndeparted_thins ws
  | forgetOutstanding ws => exact l.forgetOutstanding_thins ws
  | noteParityDeparted g at_ retain => exact .of_aside (l.noteParityDeparted_aside g at_ retain)
  | markProbeBurst start stop => exact .of_aside (l.markProbeBurst_aside start stop)
  | nextLossTime thr => exact l.nextLossTime_thins thr
  | scanOutstanding cursor n maxScan =>
    show Thins l (l.scanOutstanding cursor n maxScan).1
    unfold scanOutstanding
    split_ifs
    · exact l.trimDeparted_thins
    · exact .of_order_eq (fun _ _ hr => hr) rfl rfl
  | latestOutstandingDeparture => exact l.trimDeparted_thins
  | discardUndeparted =>
    exact .of_order_eq (fun _ _ hr => ((get?_retain_eq_some _ _ _ _).1 hr).1) rfl rfl

/-! ### The order of the departures -/

/-- The departed records are listed once each, in the order of their departure indices; `used`
are the numbers recorded so far. -/
structure DepartureOrder (l : TransmissionLedger) (used : List WireSeq) : Prop where
  nodup : l.departedOrder.Nodup
  listedUsed : ∀ ws ∈ l.departedOrder, ws ∈ used
  recordUsed : ∀ ws r, l.records.get? ws = some r → ws ∈ used
  listed : ∀ ws, l.isDeparted ws → ws ∈ l.departedOrder
  unlisted : ∀ ws r, l.records.get? ws = some r → r.departed = none → ws ∉ l.departedOrder
  index : ∀ ws r i, l.records.get? ws = some r → r.tx.depIdx = some i → i < l.nextDepIdx
  stamped : ∀ ws r, l.records.get? ws = some r → r.departed.isSome → ∃ i, r.tx.depIdx = some i
  sorted : l.departedOrder.Pairwise fun w w' => ∀ r r' i j, l.records.get? w = some r →
    l.records.get? w' = some r' → r.tx.depIdx = some i → r'.tx.depIdx = some j → i < j

section Steps

variable {l l' : TransmissionLedger} {used : List WireSeq}

theorem DepartureOrder.thins (h : DepartureOrder l used) (ht : Thins l l') :
    DepartureOrder l' used where
  nodup := h.nodup.sublist ht.order
  listedUsed := fun ws hws => h.listedUsed ws (ht.order.subset hws)
  recordUsed := fun ws r hr => h.recordUsed ws r (ht.records ws r hr)
  listed := fun ws hd => ht.kept ws (h.listed ws (ht.isDeparted hd)) hd
  unlisted := fun ws r hr hd hws => h.unlisted ws r (ht.records ws r hr) hd (ht.order.subset hws)
  index := fun ws r i hr hi => ht.nextDepIdx ▸ h.index ws r i (ht.records ws r hr) hi
  stamped := fun ws r hr hd => h.stamped ws r (ht.records ws r hr) hd
  sorted := (h.sorted.sublist ht.order).imp fun hlt r r' i j hr hr' hi hj =>
    hlt r r' i j (ht.records _ r hr) (ht.records _ r' hr') hi hj

/-- A fresh record is not listed: its number is new. -/
theorem DepartureOrder.put (h : DepartureOrder l used) {ws : WireSeq} (hnew : ws ∉ used)
    (at_ : Instant) (tx : Transmission) :
    DepartureOrder (l.putRecord ws (freshRecord at_ tx)) (used ++ [ws]) := by
  have hcases : ∀ w r, (l.putRecord ws (freshRecord at_ tx)).records.get? w = some r →
      (w = ws ∧ r = freshRecord at_ tx) ∨ l.records.get? w = some r := by
    intro w r hr
    rw [putRecord_records, get?_insert] at hr
    split_ifs at hr with hw
    · exact .inl ⟨hw, (Option.some.inj hr).symm⟩
    · exact .inr hr
  constructor
  · rw [putRecord_departedOrder]
    exact h.nodup
  · intro w hw
    rw [putRecord_departedOrder] at hw
    exact mem_append_left _ (h.listedUsed w hw)
  · intro w r hr
    rcases hcases w r hr with ⟨rfl, -⟩ | hr
    · simp
    · exact mem_append_left _ (h.recordUsed w r hr)
  · intro w hd
    obtain ⟨r, hr, hdep⟩ := (isDeparted_iff _).1 hd
    rw [putRecord_departedOrder]
    rcases hcases w r hr with ⟨-, rfl⟩ | hr
    · cases hdep
    · exact h.listed w ((isDeparted_iff l).2 ⟨r, hr, hdep⟩)
  · intro w r hr hd hw
    rw [putRecord_departedOrder] at hw
    rcases hcases w r hr with ⟨rfl, -⟩ | hr
    · exact hnew (h.listedUsed w hw)
    · exact h.unlisted w r hr hd hw
  · intro w r i hr hi
    rw [putRecord_nextDepIdx]
    rcases hcases w r hr with ⟨-, rfl⟩ | hr
    · cases hi
    · exact h.index w r i hr hi
  · intro w r hr hd
    rcases hcases w r hr with ⟨-, rfl⟩ | hr
    · cases hd
    · exact h.stamped w r hr hd
  · rw [putRecord_departedOrder]
    refine h.sorted.imp fun hlt r r' i j hr hr' hi hj => ?_
    rcases hcases _ r hr with ⟨-, rfl⟩ | hr
    · cases hi
    rcases hcases _ r' hr' with ⟨-, rfl⟩ | hr'
    · cases hj
    exact hlt r r' i j hr hr' hi hj

theorem DepartureOrder.record (h : DepartureOrder l used) {ws : WireSeq} (hnew : ws ∉ used)
    (at_ : Instant) (tx : Transmission) : DepartureOrder (l.record ws at_ tx) (used ++ [ws]) := by
  refine (h.put hnew at_ tx).thins ?_
  set l1 := l.putRecord ws (freshRecord at_ tx)
  have hevicts := evictOver_evicts (l1.order ++ [ws]) l1
  exact (of_order_eq hevicts.records (evictOver_departedOrder _ _) hevicts.nextDepIdx).trans
    (compactIfSparse_thins _)

/-- A departure is listed last, with the next index. -/
theorem DepartureOrder.markDeparted (h : DepartureOrder l used) (ws : WireSeq) (at_ : Instant)
    (us : ℕ) : DepartureOrder (l.markDeparted ws at_ us).1 used := by
  unfold TransmissionLedger.markDeparted
  cases hr : l.records.get? ws with
  | none => exact h
  | some r =>
    simp only
    split_ifs with hd
    · exact h
    have hnone : r.departed = none := by simpa using hd
    have hfresh : ws ∉ l.departedOrder := h.unlisted ws r hr hnone
    constructor
    · exact nodup_append.2 ⟨h.nodup, nodup_singleton ws, by
        rintro a ha b hb rfl
        exact hfresh (mem_singleton.1 hb ▸ ha)⟩
    · intro w hw
      rcases mem_append.1 hw with hw | hw
      · exact h.listedUsed w hw
      · rw [mem_singleton.1 hw]
        exact h.recordUsed ws r hr
    · intro w r' hr'
      rw [get?_insert] at hr'
      split_ifs at hr' with hw
      · exact hw ▸ h.recordUsed ws r hr
      · exact h.recordUsed w r' hr'
    · intro w hdep
      by_cases hw : w = ws
      · simp [hw]
      · obtain ⟨r', hr', hdep'⟩ := (isDeparted_iff _).1 hdep
        rw [get?_insert, if_neg hw] at hr'
        exact mem_append_left _ (h.listed w ((isDeparted_iff l).2 ⟨r', hr', hdep'⟩))
    · intro w r' hr' hdep hw
      rw [get?_insert] at hr'
      split_ifs at hr' with hne
      · rw [← Option.some.inj hr'] at hdep
        cases hdep
      · rcases mem_append.1 hw with hw | hw
        · exact h.unlisted w r' hr' hdep hw
        · exact hne (mem_singleton.1 hw)
    · intro w r' i hr' hi
      rw [get?_insert] at hr'
      split_ifs at hr' with hne
      · rw [← Option.some.inj hr'] at hi
        rw [← Option.some.inj hi]
        exact Nat.lt_succ_self _
      · exact Nat.lt_succ_of_lt (h.index w r' i hr' hi)
    · intro w r' hr' hdep
      rw [get?_insert] at hr'
      split_ifs at hr' with hne
      · rw [← Option.some.inj hr']
        exact ⟨_, rfl⟩
      · exact h.stamped w r' hr' hdep
    · have hne : ∀ w ∈ l.departedOrder, w ≠ ws := by
        rintro w hw rfl
        exact hfresh hw
      refine pairwise_append.2 ⟨?_, pairwise_singleton _ ws, ?_⟩
      · refine h.sorted.imp_of_mem fun ha hb hlt r1 r2 i j hr1 hr2 hi hj => ?_
        rw [get?_insert, if_neg (hne _ ha)] at hr1
        rw [get?_insert, if_neg (hne _ hb)] at hr2
        exact hlt r1 r2 i j hr1 hr2 hi hj
      · intro a ha b hb r1 r2 i j hr1 hr2 hi hj
        rw [mem_singleton.1 hb, get?_insert_self] at hr2
        rw [get?_insert, if_neg (hne a ha)] at hr1
        rw [← Option.some.inj hr2] at hj
        rw [← Option.some.inj hj]
        exact h.index a r1 i hr1 hi

theorem departureOrder_of_empty (hrec : l.records = Dict.empty) (horder : l.departedOrder = []) :
    DepartureOrder l used := by
  have hnone : ∀ ws r, l.records.get? ws ≠ some r := by
    intro ws r hr
    rw [hrec, get?_empty] at hr
    cases hr
  constructor
  · rw [horder]
    exact nodup_nil
  · rw [horder]
    exact nofun
  · exact fun ws r hr => (hnone ws r hr).elim
  · intro ws hd
    obtain ⟨r, hr, -⟩ := (isDeparted_iff l).1 hd
    exact (hnone ws r hr).elim
  · exact fun ws r hr => (hnone ws r hr).elim
  · exact fun ws r i hr => (hnone ws r hr).elim
  · exact fun ws r hr => (hnone ws r hr).elim
  · rw [horder]
    exact .nil

/-- Every operation keeps the order, as long as a record takes a new number. -/
theorem departureOrder_step (h : DepartureOrder l used) (op : LedgerOp)
    (hnew : ∀ ws ∈ op.recordedSeq, ws ∉ used) :
    DepartureOrder (ledgerStep l op) (used ++ op.recordedSeq.toList) := by
  cases op with
  | record ws at_ tx => exact h.record (hnew ws rfl) at_ tx
  | markDeparted ws at_ us =>
    rw [show LedgerOp.recordedSeq (.markDeparted ws at_ us) = none from rfl, Option.toList_none,
      append_nil]
    exact h.markDeparted ws at_ us
  | resetSession => exact departureOrder_of_empty rfl rfl
  | _ =>
    rw [LedgerOp.recordedSeq, Option.toList_none, append_nil]
    · exact h.thins (ledgerStep_thins l trivial)
    all_goals simp

end Steps

/-- **In every run with distinct numbers the departures are listed in order.** -/
theorem run_departureOrder (ops : List LedgerOp) : ∀ (l : TransmissionLedger)
    (used : List WireSeq), DepartureOrder l used →
    (used ++ ops.filterMap LedgerOp.recordedSeq).Nodup →
    DepartureOrder (run ledgerStep l ops) (used ++ ops.filterMap LedgerOp.recordedSeq) := by
  induction ops with
  | nil =>
    intro l used h _
    simpa using h
  | cons op ops ih =>
    intro l used h hnodup
    have hsplit : (op :: ops).filterMap LedgerOp.recordedSeq =
        op.recordedSeq.toList ++ ops.filterMap LedgerOp.recordedSeq := by
      cases hop : op.recordedSeq <;> simp [hop]
    rw [hsplit, ← append_assoc] at hnodup ⊢
    refine ih _ _ (departureOrder_step h op fun ws hws => ?_) hnodup
    intro hused
    have hmem : ws ∈ op.recordedSeq.toList := by simpa using hws
    exact disjoint_of_nodup_append (hnodup.of_append_left) hused hmem

end Ghostframe.Transport
