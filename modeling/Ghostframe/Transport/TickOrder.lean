import Ghostframe.Transport.StaleWork

/-!
# What a tick sends, in which order, and what it costs

A tick sends priority items in queue order until their budget is used up, then
refinement items bucket by bucket. Both budgets are soft.

* `Ordered`: what holds of the queues in every state, whatever was enqueued: no
  handle twice, entries in the bucket of their pass, a send time on what is in flight;
* `tick_drains_in_order`: a tick of any state of any run.

An item of an empty payload is free while there is no overhead per item, so the first
item that costs something need not be the first item sent; and passes of 13 and above
share a bucket, which they leave in queue order: `second_item_and_high_passes_go`.
-/

namespace Ghostframe.Transport

open Scheduler List RefinementDrain Shrinks Slab TickArgs

/-! ### Costs -/

/-- What the items cost together. -/
def TickArgs.totalCost (args : TickArgs) (out : List SentWork) : ℕ :=
  (out.map fun e => args.cost e.work).sum

variable (args : TickArgs) (budget : ℕ)

@[simp] theorem TickArgs.totalCost_nil : args.totalCost [] = 0 := rfl

@[simp] theorem TickArgs.totalCost_cons (e : SentWork) (out : List SentWork) :
    args.totalCost (e :: out) = args.cost e.work + args.totalCost out := by
  simp [totalCost]

@[simp] theorem TickArgs.totalCost_append (out out' : List SentWork) :
    args.totalCost (out ++ out') = args.totalCost out + args.totalCost out' := by
  simp [totalCost]

/-- At most the budget, or one item after items that cost nothing. -/
def TickArgs.SoftCap (args : TickArgs) (budget : ℕ) (sent : List SentWork) : Prop :=
  args.totalCost sent ≤ budget ∨
    ∃ free e, sent = free ++ [e] ∧ ∀ e' ∈ free, args.cost e'.work = 0

/-! ### The priority drain -/

theorem PriorityDrain.get_send_ne {d : PriorityDrain} {args : TickArgs} {h k : Handle}
    {w : TileWork} (hk : k ≠ h) : (d.send args h w).work.get k = d.work.get k := by
  show (d.work.modify h fun w => w.sent args.now).get k = _
  rw [get_modify, if_neg hk]

/-- What was sent of a queue: in its order, each item eligible, the budget not reached before
the last. -/
structure PrioritySent (args : TickArgs) (left : ℕ) (get : Handle → Option TileWork)
    (hs : List Handle) (sent : List SentWork) : Prop where
  order : (sent.map SentWork.handle).Sublist hs
  items : ∀ e ∈ sent, ∃ w, get e.handle = some w ∧ args.eligible w = true ∧
    e.work = w.sent args.now
  cost : ∀ init e, sent = init ++ [e] → args.totalCost init < left

/-- **The priority drain sends eligible items in queue order, up to its budget.** -/
theorem drainPriority_sent (hs : List Handle) (d : PriorityDrain) (hnodup : hs.Nodup) :
    ∃ sent, (drainPriority args budget hs d).out = d.out ++ sent ∧
      PrioritySent args (budget - d.spent) d.work.get hs sent := by
  -- a walk past an entry
  have hskip : ∀ {d h hs}, (∃ sent, (drainPriority args budget hs d).out = d.out ++ sent ∧
      PrioritySent args (budget - d.spent) d.work.get hs sent) →
      ∃ sent, (drainPriority args budget hs d).out = d.out ++ sent ∧
        PrioritySent args (budget - d.spent) d.work.get (h :: hs) sent := by
    rintro d h hs ⟨sent, hout, hs'⟩
    exact ⟨sent, hout, hs'.order.cons h, hs'.items, hs'.cost⟩
  fun_induction drainPriority args budget hs d with
  | case1 | case4 => exact ⟨[], by simp, by simp, by simp, by simp⟩
  | case2 h hs d hw ih | case3 h hs d w hw he ih => exact hskip (ih hnodup.of_cons)
  | case5 h hs d w hw he hb ih =>
    obtain ⟨hnot, hrest⟩ := nodup_cons.1 hnodup
    obtain ⟨sent, hout, hsent⟩ := ih hrest
    refine ⟨⟨h, w.state = .inFlight, w.sent args.now⟩ :: sent, ?_, ?_, ?_, ?_⟩
    · rw [hout]
      simp [PriorityDrain.send]
    · exact hsent.order.cons_cons h
    · intro e hmem
      rcases mem_cons.1 hmem with rfl | hmem
      · exact ⟨w, hw, by simpa using he, rfl⟩
      · obtain ⟨v, hv, hv'⟩ := hsent.items e hmem
        have hin : e.handle ∈ hs := hsent.order.subset (mem_map_of_mem hmem)
        have hne : e.handle ≠ h := fun heq => hnot (heq ▸ hin)
        exact ⟨v, PriorityDrain.get_send_ne hne ▸ hv, hv'⟩
    · intro init e hsplit
      cases init with
      | nil => simp only [totalCost_nil]; omega
      | cons e₀ init =>
        obtain ⟨rfl, htail⟩ := List.cons.inj hsplit
        have hcost := hsent.cost init e htail
        have hspent : (d.send args h w).spent = d.spent + args.cost w := rfl
        have hfirst : args.cost (w.sent args.now) = args.cost w := rfl
        simp only [totalCost_cons, hfirst]
        omega

/-- Pruning keeps entries in their order and changes no item that stays. -/
theorem pruneOrder_sublist (hs : List Handle) (work : Slab TileWork) :
    (pruneOrder work hs).2.Sublist hs ∧ Shrinks work (pruneOrder work hs).1 := by
  fun_induction pruneOrder work hs with
  | case1 work => exact ⟨List.Sublist.refl _, fun _ _ hw => hw⟩
  | case2 work h hs w hw hdone ih => exact ⟨ih.1.cons h, (Shrinks.remove work h).trans ih.2⟩
  | case3 work h hs w hw hdone ih => exact ⟨ih.1.cons_cons h, ih.2⟩
  | case4 work h hs hw ih => exact ⟨ih.1.cons h, ih.2⟩

/-! ### The refinement drain -/

/-- Every queued item is of the pass of its bucket; the first bucket is number `i`. -/
def Placed (work : Slab TileWork) : ℕ → List Bucket → Prop
  | _, [] => True
  | i, b :: bs =>
    (∀ h ∈ b.order, ∀ w, work.get h = some w → bucketOf w.passIdx = i) ∧ Placed work (i + 1) bs

/-- The bucket of an item sent. -/
def SentWork.bucket (e : SentWork) : ℕ := bucketOf e.work.passIdx

namespace Placed

variable {work work' : Slab TileWork} {bs bs₁ bs₂ : List Bucket} {b b' : Bucket} {i : ℕ}

/-- Items may go or change, but not their pass. -/
theorem weaken (hp : Placed work i bs)
    (hsame : ∀ h ∈ bs.flatMap Bucket.order, ∀ w', work'.get h = some w' →
      ∃ w, work.get h = some w ∧ w'.passIdx = w.passIdx) :
    Placed work' i bs := by
  induction bs generalizing i with
  | nil => trivial
  | cons b bs ih =>
    refine ⟨?_, ih hp.2 ?_⟩
    · intro h hh w' hw'
      obtain ⟨w, hw, hpass⟩ := hsame h (by simp [hh]) w' hw'
      rw [hpass]
      exact hp.1 h hh w hw
    · intro h hh
      exact hsame h (by simp only [flatMap_cons, mem_append, hh, or_true])

theorem resolve (hp : Placed work i bs) (hw : Weakens work.get work'.get) : Placed work' i bs := by
  refine hp.weaken fun h _ w' hw' => ?_
  obtain ⟨w, hget, hkey, -⟩ := hw h w' hw'
  exact ⟨w, hget, congrArg (·.2.2) hkey⟩

theorem shrink (hp : Placed work i bs) (hsh : Shrinks work work') : Placed work' i bs :=
  hp.weaken fun h _ w' hw' => ⟨w', hsh h w' hw', rfl⟩

theorem replace (hp : Placed work i (bs₁ ++ b :: bs₂)) (hsub : b'.order ⊆ b.order) :
    Placed work i (bs₁ ++ b' :: bs₂) := by
  induction bs₁ generalizing i with
  | nil => exact ⟨fun h hh => hp.1 h (hsub hh), hp.2⟩
  | cons b₀ bs₁ ih => exact ⟨hp.1, ih hp.2⟩

/-- An entry pushed into the bucket of its pass. -/
theorem push (hp : Placed work i bs) {h : Handle} (tile : UInt8 × UInt8) (j : ℕ)
    (hpass : ∀ w, work.get h = some w → bucketOf w.passIdx = i + j) :
    Placed work i (bs.modify j fun b => b.push h tile) := by
  induction bs generalizing i j with
  | nil => simp [modify_nil, Placed]
  | cons b bs ih =>
    cases j with
    | zero =>
      refine ⟨?_, hp.2⟩
      intro k hk w hw
      rcases mem_append.1 hk with hk | hk
      · exact hp.1 k hk w hw
      · obtain rfl := mem_singleton.1 hk
        exact hpass w hw
    | succ j =>
      refine ⟨hp.1, ih hp.2 j ?_⟩
      intro w hw
      have := hpass w hw
      omega

end Placed

/-- What one bucket sends is of its queue and pass, and it is empty unless the budget ended. -/
theorem drainBucket_sent (i : ℕ) (hs : List Handle) (cursor : Option (UInt8 × UInt8))
    (d : RefinementDrain) (hpass : ∀ h ∈ hs, ∀ w, d.work.get h = some w → bucketOf w.passIdx = i) :
    let r := drainBucket args budget hs cursor d
    ∃ sent, r.drain.out = d.out ++ sent ∧ (∀ e ∈ sent, e.bucket = i ∧ e.handle ∈ hs) ∧
      (r.stopped = false → r.left = []) := by
  dsimp only
  fun_induction drainBucket args budget hs cursor d with
  | case1 cursor d => exact ⟨[], by simp, by simp, fun _ => rfl⟩
  | case2 h hs cursor d hw ih =>
    obtain ⟨sent, hout, hsent, hleft⟩ := ih (forall_mem_cons.1 hpass).2
    exact ⟨sent, hout, fun e he => ⟨(hsent e he).1, mem_cons_of_mem _ (hsent e he).2⟩, hleft⟩
  | case3 h hs cursor d w hw hfull => exact ⟨[], by simp, by simp, by simp⟩
  | case4 h hs cursor d w hw hfull ih =>
    rw [forall_mem_cons] at hpass
    obtain ⟨sent, hout, hsent, hleft⟩ :=
      ih fun k hk v hv => hpass.2 k hk v (remove d.work h k v hv)
    refine ⟨⟨h, false, w.sent args.now⟩ :: sent, ?_, ?_, hleft⟩
    · rw [hout]
      simp [send]
    · exact forall_mem_cons.2 ⟨⟨hpass.1 w hw, mem_cons_self⟩, fun e he =>
        ⟨(hsent e he).1, mem_cons_of_mem _ (hsent e he).2⟩⟩

/-- What the buckets `bs` from number `i` on send: entries of theirs in the order of the buckets,
and an item only when the buckets before its own are empty. -/
structure PassMajor (i : ℕ) (bs left : List Bucket) (sent : List SentWork) : Prop where
  queued : ∀ e ∈ sent, e.handle ∈ bs.flatMap Bucket.order
  fromBucket : ∀ e ∈ sent, i ≤ e.bucket
  order : sent.Pairwise fun e e' => e.bucket ≤ e'.bucket
  drained : ∀ e ∈ sent, ∀ j b, left[j]? = some b → i + j < e.bucket → b.order = []

/-- **The refinement drain is pass-major.** -/
theorem drainBuckets_sent (bs : List Bucket) :
    ∀ (i : ℕ) (d : RefinementDrain), Placed d.work i bs →
      ∃ sent, (drainBuckets args budget bs d).1.out = d.out ++ sent ∧
        PassMajor i bs (drainBuckets args budget bs d).2 sent := by
  induction bs with
  | nil =>
    intro i d _
    exact ⟨[], by simp [drainBuckets], nofun, nofun, List.Pairwise.nil, nofun⟩
  | cons b bs ih =>
    intro i d hp
    obtain ⟨sent, hout, hsent, hleft⟩ := drainBucket_sent args budget i b.order b.cursor d hp.1
    have hbucket : ∀ e ∈ sent, e.bucket = i := fun e he => (hsent e he).1
    have hqueued : ∀ e ∈ sent, e.handle ∈ (b :: bs).flatMap Bucket.order := fun e he =>
      mem_flatMap.2 ⟨b, mem_cons_self, (hsent e he).2⟩
    have hshrink := drainBucket_shrinks args budget b.order b.cursor d
    simp only [drainBuckets]
    generalize drainBucket args budget b.order b.cursor d = r at hout hleft hshrink ⊢
    -- one bucket sends items of its own pass
    have hsame : sent.Pairwise fun e e' => e.bucket ≤ e'.bucket := by
      refine pairwise_iff_forall_sublist.2 ?_
      intro e e' hsub
      rw [hbucket e (hsub.subset (by simp)), hbucket e' (hsub.subset (by simp))]
    by_cases hstop : r.stopped
    · simp only [hstop, if_true]
      refine ⟨sent, hout, hqueued, fun e he => (hbucket e he).ge, hsame, ?_⟩
      intro e he j b' _ hlt
      rw [hbucket e he] at hlt
      omega
    · simp only [hstop, if_false, Bool.false_eq_true]
      obtain ⟨later, hout', hlater⟩ := ih (i + 1) r.drain (hp.2.shrink hshrink)
      refine ⟨sent ++ later, ?_, ?_, ?_, ?_, ?_⟩
      · rw [hout', hout, append_assoc]
      · intro e he
        rcases mem_append.1 he with he | he
        · exact hqueued e he
        · exact mem_append_right _ (hlater.queued e he)
      · intro e he
        rcases mem_append.1 he with he | he
        · exact (hbucket e he).ge
        · have := hlater.fromBucket e he
          omega
      · refine pairwise_append.2 ⟨hsame, hlater.order, ?_⟩
        intro e he e' he'
        have := hbucket e he
        have := hlater.fromBucket e' he'
        omega
      · intro e he j b' hb' hlt
        rcases mem_append.1 he with he | he
        · rw [hbucket e he] at hlt
          omega
        · cases j with
          | zero =>
            obtain rfl : _ = b' := by simpa using hb'
            exact hleft (by simpa using hstop)
          | succ j => exact hlater.drained e he j b' (by simpa using hb') (by omega)

/-- What sending within the budget preserves, the refinement drain does. -/
theorem drainBucket_inv {P : RefinementDrain → Prop}
    (hsend : ∀ d h w, P d → ¬ d.exhausted budget (args.cost w) → P (d.send args h w))
    (hs : List Handle) (cursor : Option (UInt8 × UInt8)) (d : RefinementDrain) (hd : P d) :
    P (drainBucket args budget hs cursor d).drain := by
  fun_induction drainBucket args budget hs cursor d with
  | case1 | case3 => exact hd
  | case2 h hs cursor d hw ih => exact ih hd
  | case4 h hs cursor d w hw hfull ih => exact ih (hsend d h w hd hfull)

theorem drainBuckets_inv {P : RefinementDrain → Prop}
    (hsend : ∀ d h w, P d → ¬ d.exhausted budget (args.cost w) → P (d.send args h w))
    (bs : List Bucket) (d : RefinementDrain) (hd : P d) : P (drainBuckets args budget bs d).1 := by
  fun_induction drainBuckets args budget bs d with
  | case1 d => exact hd
  | case2 b bs d r => exact drainBucket_inv args budget hsend b.order b.cursor d hd
  | case3 b bs d r _ _ ih => exact ih (drainBucket_inv args budget hsend b.order b.cursor d hd)

/-- **The refinement budget holds, up to one item.** -/
theorem drainBuckets_cost (bs : List Bucket) (work : Slab TileWork) (deficit : RefinementDeficit)
    (out : List SentWork) :
    ∃ sent, (drainBuckets args budget bs ⟨work, deficit, 0, 0, out⟩).1.out = out ++ sent ∧
      args.SoftCap budget sent := by
  have hinv := drainBuckets_inv args budget
    (P := fun d => ∃ sent, d.out = out ++ sent ∧ d.spent = args.totalCost sent ∧
      args.SoftCap budget sent) ?_ bs ⟨work, deficit, 0, 0, out⟩
      ⟨[], by simp, rfl, .inl (Nat.zero_le _)⟩
  · obtain ⟨sent, hout, -, hcap⟩ := hinv
    exact ⟨sent, hout, hcap⟩
  · rintro d h w ⟨sent, hout, hspent, -⟩ hfull
    refine ⟨sent ++ [⟨h, false, w.sent args.now⟩], ?_, ?_, ?_⟩
    · simp [send, hout]
    · have hcost : args.cost (w.sent args.now) = args.cost w := rfl
      simp [send, hspent, hcost]
    · unfold exhausted at hfull
      have hcost : args.cost (w.sent args.now) = args.cost w := rfl
      by_cases hzero : d.spent = 0
      · -- nothing spent so far: every item before this one was free
        refine .inr ⟨sent, _, rfl, ?_⟩
        intro e he
        rw [hspent] at hzero
        exact sum_eq_zero_iff.1 hzero _ (mem_map_of_mem he)
      · refine .inl ?_
        simp only [totalCost_append, totalCost_cons, totalCost_nil, hcost]
        omega

/-! ### The queues of every run -/

/-- What is in flight was sent once. -/
def SendTimed (get : Handle → Option TileWork) : Prop :=
  ∀ h w, get h = some w → w.state = .inFlight → ∃ t, w.lastSentAt = some t

theorem SendTimed.weaken {get get' : Handle → Option TileWork} (hs : SendTimed get)
    (hw : Weakens get get') : SendTimed get' := by
  intro h w' hw' hst
  obtain ⟨w, hget, -, hsame⟩ := hw h w' hw'
  obtain rfl := hsame (.inr hst)
  exact hs h w' hget hst

/-- What holds of the queues in every state. -/
structure Scheduler.Ordered (s : Scheduler) : Prop where
  queues : s.Queued
  placed : Placed s.work 0 s.buckets
  sendTimed : SendTimed s.work.get

namespace Scheduler

variable {s s' : Scheduler} {out out' : List SentWork}

theorem move_ordered {now : Instant} (hm : Move now (s, out) (s', out')) (ho : s.Ordered) :
    s'.Ordered := by
  refine ⟨move_queues hm ho.queues, ?_, ?_⟩
  · cases hm with
    | @discard _ _ l₁ l₂ h hq hdone => exact ho.placed.shrink (remove s.work h)
    | @emit _ _ h w hq hw ha =>
      refine ho.placed.weaken ?_
      intro k _ w' hw'
      rw [get_modify] at hw'
      split at hw'
      · rename_i hk
        obtain ⟨v, hv, rfl⟩ := Option.map_eq_some_iff.1 hw'
        exact ⟨v, hk ▸ hv, rfl⟩
      · exact ⟨w', hw', rfl⟩
    | @discardRefinement _ _ bs₁ bs₂ b l₁ l₂ h hb hq hdone hbs =>
      have hsub : l₁ ++ l₂ ⊆ b.order := by
        rw [hq]
        intro k hk
        simp only [mem_append, mem_cons] at hk ⊢
        tauto
      have hplaced : Placed s.work 0 (bs₁ ++ { b with order := l₁ ++ l₂ } :: bs₂) :=
        (hb ▸ ho.placed).replace hsub
      exact hplaced.shrink (remove s.work h)
    | @send _ _ bs₁ bs₂ b l₂ h w b' hb hq hb' hw ha hbs =>
      have hsub : b'.order ⊆ b.order := by
        rw [hq, hb']
        exact subset_cons_self h l₂
      exact ((hb ▸ ho.placed).replace hsub).shrink (remove s.work h)
    | @arrange _ _ bs₁ bs₂ b b' hb hperm hbs => exact (hb ▸ ho.placed).replace hperm.subset
  · have hshrink : ∀ h, SendTimed (s.work.remove h).get :=
      fun h k w hw => ho.sendTimed k w (remove s.work h k w hw)
    cases hm with
    | discard | discardRefinement | send => exact hshrink _
    | @emit _ _ h w hq hw ha =>
      intro k w' hw' hst
      rw [get_modify] at hw'
      split at hw'
      · obtain ⟨v, -, rfl⟩ := Option.map_eq_some_iff.1 hw'
        exact ⟨now, rfl⟩
      · exact ho.sendTimed k w' hw' hst
    | arrange hb hperm hbs => exact ho.sendTimed

/-- A move brings no entry into the buckets. -/
theorem move_subset {now : Instant} (hm : Move now (s, out) (s', out')) :
    s'.buckets.flatMap Bucket.order ⊆ s.buckets.flatMap Bucket.order := by
  have hreplace : ∀ {bs₁ bs₂ : List Bucket} {b b' : Bucket}, s.buckets = bs₁ ++ b :: bs₂ →
      b'.order ⊆ b.order →
      (bs₁ ++ b' :: bs₂).flatMap Bucket.order ⊆ s.buckets.flatMap Bucket.order := by
    intro bs₁ bs₂ b b' hb hsub k
    rw [hb]
    simp only [flatMap_append, flatMap_cons, mem_append]
    have := @hsub k
    tauto
  cases hm with
  | discard | emit => exact fun _ hk => hk
  | @discardRefinement _ _ bs₁ bs₂ b l₁ l₂ h hb hq hdone hbs =>
    refine hreplace hb fun k hk => ?_
    rw [hq]
    simp only [mem_append, mem_cons] at hk ⊢
    tauto
  | @send _ _ bs₁ bs₂ b l₂ h w b' hb hq hb' hw ha hbs =>
    refine hreplace hb ?_
    rw [hq, hb']
    exact subset_cons_self h l₂
  | @arrange _ _ bs₁ bs₂ b b' hb hperm hbs => exact hreplace hb hperm.subset

theorem retirePasses_ordered (x y : UInt8) (ps : List UInt8) (ho : s.Ordered) :
    (s.retirePasses x y ps).Ordered := by
  have hweak := weakens_retirePasses s x y ps
  have hplaced := ho.placed.resolve hweak
  refine ⟨retirePasses_queues x y ps ho.queues, ?_, ho.sendTimed.weaken hweak⟩
  obtain ⟨work, n, he⟩ := retirePasses_eq s x y ps
  rw [he] at hplaced ⊢
  exact hplaced

/-- Storing a pending item leaves the entries in their buckets. -/
theorem store_ordered {t : Scheduler} {w : TileWork} (ho : t.Ordered) (hst : w.state = .pending) :
    Placed (t.work.insert w).1 0 t.buckets ∧ SendTimed (t.work.insert w).1.get := by
  refine ⟨ho.placed.weaken ?_, ?_⟩
  · intro k hk w' hw'
    have hne : k ≠ (t.work.insert w).2 := by
      rintro rfl
      exact ho.queues.not_mem (get_insert_fresh t.work w) (mem_append_right _ hk)
    rw [get_insert, if_neg hne] at hw'
    exact ⟨w', hw', rfl⟩
  · intro k w' hw' hflight
    rw [get_insert] at hw'
    split at hw'
    · obtain rfl := Option.some.inj hw'
      rw [hst] at hflight
      cases hflight
    · exact ho.sendTimed k w' hw' hflight

theorem enqueueAt_ordered (w : TileWork) (now : Instant) (ho : s.Ordered) :
    (s.enqueueAt w now).Ordered := by
  obtain ⟨hplaced, htimed⟩ := store_ordered (w := w.queued now)
    (retirePasses_ordered w.tileX w.tileY [w.passIdx] ho) rfl
  exact ⟨enqueueAt_queues ho.queues, hplaced, htimed⟩

theorem fileRefinement_ordered {w : TileWork} (hst : w.state = .pending) (ho : s.Ordered) :
    (s.fileRefinement w).Ordered := by
  have hretired := retirePasses_ordered w.tileX w.tileY [w.passIdx] ho
  obtain ⟨hplaced, htimed⟩ := store_ordered (w := w) hretired hst
  refine ⟨fileRefinement_queues hst ho.queues, ?_, htimed⟩
  refine hplaced.push (w.tileX, w.tileY) (bucketOf w.passIdx) ?_
  intro v hv
  have hself : (s.file w).2 =
      ((s.retirePasses w.tileX w.tileY [w.passIdx]).work.insert w).2 := rfl
  rw [get_insert, if_pos hself] at hv
  obtain rfl := Option.some.inj hv
  exact (Nat.zero_add _).symm

theorem fileAll_ordered (ws : List TileWork) (hst : ∀ w ∈ ws, w.state = .pending)
    (ho : s.Ordered) : (ws.foldl fileRefinement s).Ordered := by
  induction ws generalizing s with
  | nil => exact ho
  | cons w ws ih =>
    exact ih (fun v hv => hst v (mem_cons_of_mem _ hv))
      (fileRefinement_ordered (hst w mem_cons_self) ho)

theorem markAcked_ordered (x y gen p : UInt8) (ho : s.Ordered) :
    (s.markAcked x y gen p).Ordered := by
  have hweak := weakens_markAcked s x y gen p
  have hplaced := ho.placed.resolve hweak
  refine ⟨markAcked_queues x y gen p ho.queues, ?_, ho.sendTimed.weaken hweak⟩
  unfold markAcked at hplaced ⊢
  split <;> simp_all only

theorem empty_ordered {t : Scheduler} (hwork : ∀ k, t.work.get k = none)
    (hprio : t.priorityOrder = []) (hbuckets : t.buckets = List.replicate passSlots {}) :
    t.Ordered := by
  have hplaced : ∀ (bs : List Bucket) (i : ℕ), Placed t.work i bs := by
    intro bs
    induction bs with
    | nil => exact fun _ => trivial
    | cons b bs ih => exact fun i => ⟨by simp [hwork], ih (i + 1)⟩
  exact ⟨empty_queued hwork hprio hbuckets, hplaced t.buckets 0, by simp [SendTimed, hwork]⟩

/-- **Every operation keeps the queues in order**, on and off the grid. -/
theorem apply_ordered (s : Scheduler) (op : SchedOp) (ho : s.Ordered) : (op.apply s).Ordered := by
  have hslots : ∀ {t : Scheduler} {m : SlotMap}, t.Ordered → Ordered { t with slots := m } :=
    fun ht => ⟨ht.queues, ht.placed, ht.sendTimed⟩
  have hsupersede : ∀ x y, (s.supersedePendingForTile x y).Ordered :=
    fun x y => retirePasses_ordered x y passIndices (hslots ho)
  cases op with
  | enqueueAt w now => exact enqueueAt_ordered w now ho
  | enqueueRefinementWorkAt w now => exact fileRefinement_ordered rfl ho
  | enqueueRefinementAt x y gen passes now =>
    exact fileAll_ordered _ (fun _ hw => Watch.refinementItems_pending hw) ho
  | enqueueRefinementSubsetAt x y gen mask payloads now =>
    exact fileAll_ordered _ (fun _ hw => Watch.subsetItems_pending hw) ho
  | supersedePendingForTile x y => exact hsupersede x y
  | bumpGeneration x y => exact hslots (hsupersede x y)
  | bumpGenerationCollecting x y =>
    have hretired := retirePasses_ordered x y passIndices ho
    rw [← collect_fst s x y passIndices []] at hretired
    exact hslots hretired
  | markAcked x y gen p => exact markAcked_ordered x y gen p ho
  | recordCdf53Ack | frameLabel => exact hslots ho
  | tickAtWith budget share now owned =>
    exact Moves.inv (P := fun t _ => t.Ordered) move_ordered
      (tick_moves s budget share now owned) ho
  | setRetryAfter | setItemOverhead => exact ⟨ho.queues, ho.placed, ho.sendTimed⟩
  | clear | resize => exact empty_ordered (get_clear s.work) rfl rfl

theorem run_ordered (cols rows : ℕ) (ops : List SchedOp) :
    (run SchedOp.apply (.new cols rows) ops).Ordered :=
  run_inv (fun s op _ => apply_ordered s op) (empty_ordered (fun _ => rfl) rfl rfl)

end Scheduler

/-! ### The tick -/

/-- What one tick of `s` sends: `prio` from the priority queue, then `refi` from the buckets. -/
structure DrainsInOrder (s : Scheduler) (budget share : ℕ) (now : Instant)
    (recoveryOwned : UInt8 → UInt8 → UInt8 → Bool) (prio refi : List SentWork) : Prop where
  emitted : (s.tickAtWith budget share now recoveryOwned).2 = prio ++ refi
  /-- Priority items go in queue order. -/
  queueOrder : (prio.map SentWork.handle).Sublist s.priorityOrder
  /-- Together they cost less than the budget and the last of them. -/
  priorityCost : ∀ init last, prio = init ++ [last] →
    (s.tickArgs now recoveryOwned).totalCost prio <
      (s.splitBudget budget share).1 + (s.tickArgs now recoveryOwned).cost last.work
  /-- What was in flight goes again only after `retry_after`, and if recovery does not own it. -/
  retried : ∀ e ∈ prio ++ refi, e.handle ∈ s.priorityOrder → ∀ w,
    s.work.get e.handle = some w → w.state = .inFlight →
    (∃ t, w.lastSentAt = some t ∧ s.retryAfter ≤ now - t) ∧
      recoveryOwned w.tileX w.tileY w.passIdx = false
  /-- Refinement items are entries of the buckets, and none of the priority queue. -/
  fromBuckets : ∀ e ∈ refi,
    e.handle ∈ s.buckets.flatMap Bucket.order ∧ e.handle ∉ s.priorityOrder
  /-- Refinement items go bucket by bucket. -/
  passOrder : refi.Pairwise fun e e' => e.bucket ≤ e'.bucket
  /-- None goes while a bucket before its own holds an entry. -/
  lowerDrained : ∀ e ∈ refi, ∀ i b,
    (s.tickAtWith budget share now recoveryOwned).1.buckets[i]? = some b → i < e.bucket →
      b.order = []
  /-- They cost at most the budget, or only the last of them costs anything. -/
  refinementCost :
    (s.tickArgs now recoveryOwned).SoftCap (s.splitBudget budget share).2 refi

/-- The priority part of a tick. -/
theorem Scheduler.Ordered.priority {s : Scheduler} (ho : s.Ordered) (budget share : ℕ)
    (now : Instant) (recoveryOwned : UInt8 → UInt8 → UInt8 → Bool) :
    PrioritySent (s.tickArgs now recoveryOwned) (s.splitBudget budget share).1 s.work.get
      s.priorityOrder (s.priorityDrained budget share now recoveryOwned).2 := by
  obtain ⟨hsub, hshrink⟩ := pruneOrder_sublist s.priorityOrder s.work
  have hnodup := hsub.nodup (nodup_append.1 ho.queues.nodup).1
  obtain ⟨sent, hout, hsent⟩ := drainPriority_sent (s.tickArgs now recoveryOwned)
    (s.splitBudget budget share).1 (pruneOrder s.work s.priorityOrder).2
    ⟨(pruneOrder s.work s.priorityOrder).1, s.pendingItems, 0, []⟩ hnodup
  have hout : (s.priorityDrained budget share now recoveryOwned).2 = sent := hout
  rw [hout]
  refine ⟨hsent.order.trans hsub, ?_, hsent.cost⟩
  intro e he
  obtain ⟨w, hw, hrest⟩ := hsent.items e he
  exact ⟨w, hshrink _ w hw, hrest⟩

/-- **A tick drains in order and within its budgets**, in every state of every run: priority items
in queue order, the last of them alone past the budget; then refinement items in the order of
their passes, those of pass 13 and above as one, an item only when nothing of a lower pass is left,
at most the budget or a single item that costs anything, the last. What is in flight is sent again
only after `retry_after`, and only if recovery does not own it. -/
theorem tick_drains_in_order (cols rows : ℕ) (ops : List SchedOp) (budget share : ℕ)
    (now : Instant) (recoveryOwned : UInt8 → UInt8 → UInt8 → Bool) :
    ∃ prio refi, DrainsInOrder (run SchedOp.apply (.new cols rows) ops) budget share now
      recoveryOwned prio refi := by
  have ho := run_ordered cols rows ops
  generalize run SchedOp.apply (Scheduler.new cols rows) ops = s at ho ⊢
  let args := s.tickArgs now recoveryOwned
  let first := s.priorityDrained budget share now recoveryOwned
  have hprio := ho.priority budget share now recoveryOwned
  have hplaced := (Moves.inv (P := fun t _ => t.Ordered) move_ordered
    (pruned_moves s budget share now recoveryOwned) ho).placed
  obtain ⟨refi, hout, hmajor⟩ := drainBuckets_sent args (s.splitBudget budget share).2
    first.1.pruneRefinement.buckets 0
    ⟨first.1.pruneRefinement.work, first.1.pruneRefinement.refinementDeficit, 0, 0, first.2⟩ hplaced
  obtain ⟨refi', hout', hcap⟩ := drainBuckets_cost args (s.splitBudget budget share).2
    first.1.pruneRefinement.buckets first.1.pruneRefinement.work
    first.1.pruneRefinement.refinementDeficit first.2
  obtain rfl : refi = refi' := append_cancel_left (hout.symm.trans hout')
  have hfrom : ∀ e ∈ refi,
      e.handle ∈ s.buckets.flatMap Bucket.order ∧ e.handle ∉ s.priorityOrder := by
    intro e he
    have hin : e.handle ∈ s.buckets.flatMap Bucket.order :=
      Moves.inv (P := fun t _ => t.buckets.flatMap Bucket.order ⊆ s.buckets.flatMap Bucket.order)
        (fun hm hsub => List.Subset.trans (move_subset hm) hsub)
        (pruned_moves s budget share now recoveryOwned) (Subset.refl _) (hmajor.queued e he)
    exact ⟨hin, fun hprio => (nodup_append.1 ho.queues.nodup).2.2 _ hprio _ hin rfl⟩
  refine ⟨first.2, refi, hout, hprio.order, ?_, ?_, hfrom, hmajor.order, ?_, hcap⟩
  · intro init last hsplit
    have hcost := hprio.cost init last hsplit
    rw [hsplit]
    simp only [totalCost_append, totalCost_cons, totalCost_nil]
    omega
  · intro e he hqueue w hw hst
    have hmem : e ∈ first.2 :=
      (mem_append.1 he).resolve_right fun hrefi => (hfrom e hrefi).2 hqueue
    obtain ⟨v, hv, heligible, -⟩ := hprio.items e hmem
    obtain rfl : w = v := Option.some.inj (hw.symm.trans hv)
    obtain ⟨t, ht⟩ := ho.sendTimed _ w hw hst
    simp only [eligible, hst, ht, Option.all_some, Bool.and_eq_true,
      Bool.not_eq_true', decide_eq_true_eq] at heligible
    exact ⟨⟨t, ht, heligible.1⟩, heligible.2⟩
  · intro e he i b hb hlt
    exact hmajor.drained e he i b hb (by simpa using hlt)

/-- Two tiles queue a pass: the first has no bytes, the second three. -/
def emptyThenThree : List SchedOp :=
  [.enqueueRefinementAt 0 0 0 [[]] 0, .enqueueRefinementAt 1 0 0 [[1, 2, 3]] 0]

/-- Two tiles queue a pass past the last bucket, the higher one first. -/
def highPasses : List SchedOp :=
  [.enqueueRefinementSubsetAt 0 0 0 0x8000 [[1]] 0,
    .enqueueRefinementSubsetAt 1 0 0 0x4000 [[1]] 0]

/-- The empty pass costs nothing, so the next one goes too, past a budget of one byte; and pass 15
goes before pass 14, as they were queued. -/
theorem second_item_and_high_passes_go :
    (let s := run SchedOp.apply (.new 2 1) emptyThenThree
      let refi := (s.tickAtWith 1 0 0 fun _ _ _ => false).2
      (s.splitBudget 1 0).2 = 1 ∧ s.priorityOrder = [] ∧ refi.length = 2 ∧
        (s.tickArgs 0 fun _ _ _ => false).totalCost refi = 3) ∧
      let s := run SchedOp.apply (.new 2 1) highPasses
      s.priorityOrder = [] ∧
        (s.tickAtWith 9 0 0 fun _ _ _ => false).2.map (fun e => e.work.passIdx) = [15, 14] := by
  decide +kernel

end Ghostframe.Transport
