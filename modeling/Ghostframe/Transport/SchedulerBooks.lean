import Ghostframe.Transport.RefinementTally
import Ghostframe.Transport.StaleWork

/-!
# The books of the scheduler

The scheduler answers "is anything pending" and "how many tiles still refine" from
counters, and finds the item of a tile pass through a slot; none of them is ever
recomputed from the queues.

* `Tally`: the slab, the refinement entries and both counters agree; the lemmas
  below it say what storing, changing and removing one item does to them;
* `Books`: what the counters, the queues and the slots say in a state;
* `books_balance`: it holds in every state of a run, and no decrement underflows.

Counters are natural numbers here, whose subtraction stops at zero; the `Exact`
predicates walk the loops of the source and say at each decrement that it does not.
-/

namespace Ghostframe.Transport

open Bucket List RefinementDeficit Slab TileWork

/-- The item waits for its first send. -/
def TileWork.isPending (w : TileWork) : Bool := w.state = .pending

/-- The tiles of the entries of a queue. -/
def queueTiles (work : Slab TileWork) (hs : List Handle) : List (UInt8 × UInt8) :=
  hs.filterMap fun h => (work.get h).map TileWork.tile

section QueueTiles

variable {work work' : Slab TileWork} {h : Handle} {hs hs' : List Handle} {w : TileWork}

theorem queueTiles_cons_some (hw : work.get h = some w) (hs : List Handle) :
    queueTiles work (h :: hs) = w.tile :: queueTiles work hs := by
  simp [queueTiles, hw]

theorem queueTiles_cons_none (hw : work.get h = none) (hs : List Handle) :
    queueTiles work (h :: hs) = queueTiles work hs := by
  simp [queueTiles, hw]

theorem queueTiles_perm (hp : hs.Perm hs') : (queueTiles work hs).Perm (queueTiles work hs') :=
  hp.filterMap _

theorem queueTiles_congr (work : Slab TileWork)
    (hsame : ∀ h ∈ hs, (work'.get h).map tile = (work.get h).map tile) :
    queueTiles work' hs = queueTiles work hs :=
  filterMap_congr hsame

end QueueTiles

/-- The slab, the refinement entries and the counters agree: `left` items have been sent that
the count of pending ones, `total`, still holds. -/
structure Tally (cols rows : ℕ) (work : Slab TileWork) (deficit : RefinementDeficit)
    (refi : List Handle) (left total : ℕ) : Prop where
  grid : deficit.SameGrid (.new cols rows)
  nodup : refi.Nodup
  counts : deficit.Counts (queueTiles work refi)
  pending : work.count TileWork.isPending + left = total

namespace Tally

variable {cols rows : ℕ} {work : Slab TileWork} {deficit : RefinementDeficit}
  {refi refi' : List Handle} {left total : ℕ} {h : Handle} {w : TileWork}

theorem perm (ht : Tally cols rows work deficit refi left total) (hp : refi.Perm refi') :
    Tally cols rows work deficit refi' left total where
  grid := ht.grid
  nodup := hp.nodup_iff.1 ht.nodup
  counts := ht.counts.perm (queueTiles_perm hp)
  pending := ht.pending

theorem skip (ht : Tally cols rows work deficit (h :: refi) left total)
    (hw : work.get h = none) : Tally cols rows work deficit refi left total where
  grid := ht.grid
  nodup := (nodup_cons.1 ht.nodup).2
  counts := queueTiles_cons_none hw refi ▸ ht.counts
  pending := ht.pending

/-- **An entry leaves its queue and the slab.** -/
theorem remove (ht : Tally cols rows work deficit (h :: refi) left total)
    (hw : work.get h = some w) :
    deficit.PopExact w.tileX w.tileY ∧
      Tally cols rows (work.remove h) (deficit.pop w.tileX w.tileY) refi
        (if w.state = .pending then left + 1 else left) total := by
  obtain ⟨hnot, hnodup⟩ := nodup_cons.1 ht.nodup
  have hcounts := ht.counts
  rw [queueTiles_cons_some hw] at hcounts
  obtain ⟨hexact, hpop⟩ := hcounts.pop
  refine ⟨hexact, ?_, hnodup, ?_, ?_⟩
  · obtain ⟨hc, hl⟩ := sameGrid_pop deficit w.tileX w.tileY
    exact ⟨hc.trans ht.grid.1, hl.trans ht.grid.2⟩
  · rw [queueTiles_congr work]
    · exact hpop
    · intro k hk
      rw [get_remove, if_neg]
      rintro rfl
      exact hnot hk
  · have hcount := count_remove hw isPending
    have htotal := ht.pending
    by_cases hst : w.state = .pending
    · simp only [isPending, hst, decide_true, if_true] at hcount ⊢
      omega
    · simp only [isPending, hst, decide_false, if_false, Bool.false_eq_true] at hcount ⊢
      omega

/-- A resolved item that no refinement entry names leaves the slab. -/
theorem removeOther (ht : Tally cols rows work deficit refi left total) (hnot : h ∉ refi)
    (hw : work.get h = some w) (hst : w.state ≠ .pending) :
    Tally cols rows (work.remove h) deficit refi left total where
  grid := ht.grid
  nodup := ht.nodup
  counts := by
    rw [queueTiles_congr work]
    · exact ht.counts
    · intro k hk
      rw [get_remove, if_neg]
      rintro rfl
      exact hnot hk
  pending := by
    have hcount := count_remove hw isPending
    rw [if_neg (by simpa [isPending] using hst)] at hcount
    have := ht.pending
    omega

/-- **An item changes in place, its tile apart.** -/
theorem modify (ht : Tally cols rows work deficit refi 0 total) {f : TileWork → TileWork}
    (htile : ∀ w, (f w).tile = w.tile) (hw : work.get h = some w) :
    (w.isPending → 0 < total) ∧
      Tally cols rows (work.modify h f) deficit refi 0
        (total - (if w.isPending then 1 else 0) + if (f w).isPending then 1 else 0) := by
  have hcount := count_modify hw f isPending
  have htotal := ht.pending
  have hpos : w.isPending → 0 < total := by
    intro hp
    have := count_pos hw hp
    omega
  refine ⟨hpos, ht.grid, ht.nodup, ?_, ?_⟩
  · rw [queueTiles_congr work]
    · exact ht.counts
    · intro k _
      rw [get_modify]
      split
      · rename_i hk
        rw [hk, Option.map_map]
        congr 1
        funext v
        exact htile v
      · rfl
  · by_cases hp : w.isPending
    · have := hpos hp
      simp only [hp, if_true] at hcount ⊢
      omega
    · simp only [hp, if_false, Bool.false_eq_true] at hcount ⊢
      omega

theorem queueTiles_insert (hnot : (work.insert w).2 ∉ refi) :
    queueTiles (work.insert w).1 refi = queueTiles work refi := by
  refine queueTiles_congr work ?_
  intro k hk
  rw [get_insert, if_neg]
  rintro rfl
  exact hnot hk

/-- **A pending item is stored, for the priority queue.** -/
theorem insert (ht : Tally cols rows work deficit refi 0 total)
    (hnot : (work.insert w).2 ∉ refi) (hst : w.isPending) :
    Tally cols rows (work.insert w).1 deficit refi 0 (total + 1) where
  grid := ht.grid
  nodup := ht.nodup
  counts := queueTiles_insert hnot ▸ ht.counts
  pending := by
    have := ht.pending
    rw [count_insert, if_pos hst]
    omega

/-- **And for the refinement queue.** -/
theorem insertRefinement (ht : Tally cols rows work deficit refi 0 total)
    (hnot : (work.insert w).2 ∉ refi) (hst : w.isPending) (hx : w.tileX.toNat < cols)
    (hy : w.tileY.toNat < rows) :
    Tally cols rows (work.insert w).1 (deficit.push w.tileX w.tileY) ((work.insert w).2 :: refi) 0
      (total + 1) := by
  have hget : (work.insert w).1.get (work.insert w).2 = some w := by
    rw [get_insert, if_pos rfl]
  obtain ⟨i, hi⟩ : ∃ i, deficit.index w.tileX w.tileY = some i := by
    rw [ht.grid.index]
    refine ⟨_, index_eq_some_iff.2 ⟨hx, ?_, rfl⟩⟩
    simp only [RefinementDeficit.new, List.length_replicate]
    nlinarith
  refine ⟨?_, nodup_cons.2 ⟨hnot, ht.nodup⟩, ?_, (ht.insert hnot hst).pending⟩
  · obtain ⟨hc, hl⟩ := sameGrid_push deficit w.tileX w.tileY
    exact ⟨hc.trans ht.grid.1, hl.trans ht.grid.2⟩
  · rw [queueTiles_cons_some hget, queueTiles_insert hnot]
    exact ht.counts.push hi

theorem empty (cols rows : ℕ) (hwork : ∀ k, work.get k = none) :
    Tally cols rows work (.new cols rows) [] 0 0 where
  grid := ⟨rfl, rfl⟩
  nodup := nodup_nil
  counts := counts_new cols rows
  pending := count_eq_zero hwork _

end Tally

/-! ### The loops of a tick -/

/-- Every send of the priority drain that leaves the count of pending items lowers a positive
one. -/
def DrainPriorityExact (args : TickArgs) (budget : ℕ) : List Handle → PriorityDrain → Prop
  | [], _ => True
  | h :: hs, d =>
    match d.work.get h with
    | none => DrainPriorityExact args budget hs d
    | some w =>
      if args.eligible w = false then DrainPriorityExact args budget hs d
      else if budget ≤ d.spent then True
      else
        (w.state ≠ .inFlight → 0 < d.pendingItems) ∧
          DrainPriorityExact args budget hs (d.send args h w)

/-- Every pop of the pruning walk over a bucket is of positive counts. -/
def PruneBucketExact : List Handle → Slab TileWork → RefinementDeficit → Prop
  | [], _, _ => True
  | h :: hs, work, deficit =>
    match work.get h with
    | none => PruneBucketExact hs work deficit
    | some w =>
      if w.Terminal then
        deficit.PopExact w.tileX w.tileY ∧
          PruneBucketExact hs (work.remove h) (deficit.pop w.tileX w.tileY)
      else PruneBucketExact hs work deficit

/-- So it is in every bucket. -/
def PruneBucketsExact (work : Slab TileWork) (deficit : RefinementDeficit) : List Bucket → Prop
  | [] => True
  | b :: bs =>
    let pruned := pruneBucket b.fresh.start 0 b.order ⟨work, deficit, [], 0⟩
    PruneBucketExact b.order work deficit ∧
      PruneBucketsExact pruned.work pruned.deficit bs

/-- Every pop of the refinement drain of a bucket is of positive counts. -/
def DrainBucketExact (args : TickArgs) (budget : ℕ) : List Handle → RefinementDrain → Prop
  | [], _ => True
  | h :: hs, d =>
    match d.work.get h with
    | none => DrainBucketExact args budget hs d
    | some w =>
      if d.exhausted budget (args.cost w) then True
      else
        d.deficit.PopExact w.tileX w.tileY ∧ DrainBucketExact args budget hs (d.send args h w)

/-- So it is in every bucket the drain reaches. -/
def DrainBucketsExact (args : TickArgs) (budget : ℕ) : List Bucket → RefinementDrain → Prop
  | [], _ => True
  | b :: bs, d =>
    let r := drainBucket args budget b.order b.cursor d
    DrainBucketExact args budget b.order d ∧
      (r.stopped = false → DrainBucketsExact args budget bs r.drain)

section Loops

variable {cols rows left total : ℕ}

/-- Pruning the priority queue touches no refinement entry and no pending item. -/
theorem pruneOrder_tally {deficit : RefinementDeficit} {refi : List Handle} (hs : List Handle)
    (work : Slab TileWork) (hnot : ∀ h ∈ hs, h ∉ refi)
    (ht : Tally cols rows work deficit refi left total) :
    Tally cols rows (pruneOrder work hs).1 deficit refi left total ∧
      ∀ h ∈ (pruneOrder work hs).2, h ∉ refi := by
  fun_induction pruneOrder work hs with
  | case1 work => exact ⟨ht, by simp⟩
  | case2 work h hs w hw hdone ih =>
    rw [forall_mem_cons] at hnot
    have hst : w.state ≠ .pending := by
      rcases hdone with hst | hst <;> simp [hst]
    exact ih hnot.2 (ht.removeOther hnot.1 hw hst)
  | case3 work h hs w hw hdone ih =>
    rw [forall_mem_cons] at hnot ⊢
    obtain ⟨htally, hkeep⟩ := ih hnot.2 ht
    exact ⟨htally, hnot.1, hkeep⟩
  | case4 work h hs hw ih => exact ih (forall_mem_cons.1 hnot).2 ht

/-- **The priority drain keeps the books.** -/
theorem drainPriority_tally (args : TickArgs) (budget : ℕ) {deficit : RefinementDeficit}
    {refi : List Handle} (hs : List Handle) (d : PriorityDrain)
    (ht : Tally cols rows d.work deficit refi 0 d.pendingItems) :
    DrainPriorityExact args budget hs d ∧
      Tally cols rows (drainPriority args budget hs d).work deficit refi 0
        (drainPriority args budget hs d).pendingItems := by
  fun_induction drainPriority args budget hs d with
  | case1 d => exact ⟨trivial, ht⟩
  | case2 h hs d hw ih =>
    simp only [DrainPriorityExact, hw]
    exact ih ht
  | case3 h hs d w hw he ih =>
    simp only [DrainPriorityExact, hw, he, if_true]
    exact ih ht
  | case4 h hs d w hw he hb =>
    simp only [DrainPriorityExact, hw, he, hb, if_true]
    exact ⟨trivial, ht⟩
  | case5 h hs d w hw he hb ih =>
    simp only [DrainPriorityExact, hw, he, hb, if_false]
    -- what is sent was pending, or in flight and not counted
    have hpend : w.isPending = true ↔ w.state ≠ .inFlight := by
      rcases TickArgs.active_of_eligible he with hst | hst <;> simp [isPending, hst]
    obtain ⟨hpos, hsent⟩ := ht.modify (f := fun w => w.sent args.now) (fun _ => rfl) hw
    have hcount : d.pendingItems - (if w.isPending then 1 else 0) +
        (if (w.sent args.now).isPending then 1 else 0) = (d.send args h w).pendingItems := by
      by_cases hst : w.state = .inFlight
      · simp [PriorityDrain.send, sent, isPending, hst]
      · have hp : w.isPending = true := hpend.2 hst
        rw [hp]
        simp [PriorityDrain.send, sent, isPending, hst]
    rw [hcount] at hsent
    obtain ⟨hexact, hrest⟩ := ih hsent
    exact ⟨⟨fun hst => hpos (hpend.2 hst), hexact⟩, hrest⟩

/-- **Pruning a bucket keeps the books.** -/
theorem pruneBucket_tally (start : Option ℕ) (others hs : List Handle) (i : ℕ) (acc : Pruned)
    (ht : Tally cols rows acc.work acc.deficit (acc.kept ++ hs ++ others) left total) :
    PruneBucketExact hs acc.work acc.deficit ∧
      Tally cols rows (pruneBucket start i hs acc).work (pruneBucket start i hs acc).deficit
        ((pruneBucket start i hs acc).kept ++ others) left total := by
  have hperm : ∀ (kept hs : List Handle) (h : Handle),
      (kept ++ h :: hs ++ others).Perm (h :: (kept ++ hs ++ others)) :=
    fun kept hs h => perm_middle.append_right others
  fun_induction pruneBucket start i hs acc with
  | case1 i acc =>
    rw [append_nil] at ht
    exact ⟨trivial, ht⟩
  | case2 i h hs acc removed w hw hdone ih =>
    have hst : w.state ≠ .pending := by
      rcases hdone with hst | hst <;> simp [hst]
    obtain ⟨hpop, hremoved⟩ := (ht.perm (hperm _ _ _)).remove hw
    rw [if_neg hst] at hremoved
    simp only [PruneBucketExact, hw, hdone, if_true]
    rw [and_assoc]
    exact ⟨hpop, ih hremoved⟩
  | case3 i h hs acc w hw hdone ih =>
    simp only [PruneBucketExact, hw, hdone, if_false]
    exact ih (by simpa using ht)
  | case4 i h hs acc removed hw ih =>
    simp only [PruneBucketExact, hw]
    exact ih ((ht.perm (hperm _ _ _)).skip hw)

theorem perm_to_back (hs done rest : List Handle) :
    (hs ++ (done ++ rest)).Perm (done ++ hs ++ rest) := by
  rw [append_assoc]
  exact perm_append_comm_assoc _ _ _

/-- **So does pruning every bucket.** -/
theorem pruneBuckets_tally (bs : List Bucket) :
    ∀ (done : List Handle) (work : Slab TileWork) (deficit : RefinementDeficit),
      Tally cols rows work deficit (done ++ bs.flatMap order) left total →
      PruneBucketsExact work deficit bs ∧
        Tally cols rows (pruneBuckets work deficit bs).1 (pruneBuckets work deficit bs).2.1
          (done ++ (pruneBuckets work deficit bs).2.2.flatMap order) left total := by
  induction bs with
  | nil =>
    intro done work deficit ht
    exact ⟨trivial, ht⟩
  | cons b bs ih =>
    intro done work deficit ht
    -- the bucket in front, every other entry behind it
    have hfront : (done ++ (b :: bs).flatMap order).Perm
        ([] ++ b.order ++ (done ++ bs.flatMap order)) := by
      exact perm_append_comm_assoc _ _ _
    obtain ⟨hexact, hpruned⟩ :=
      pruneBucket_tally b.fresh.start _ b.order 0 ⟨work, deficit, [], 0⟩ (ht.perm hfront)
    have hrotated := Scheduler.rotateFresh_perm b
      (pruneBucket b.fresh.start 0 b.order ⟨work, deficit, [], 0⟩)
    have hback := hpruned.perm ((hrotated.symm.append_right _).trans (perm_to_back _ done _))
    obtain ⟨hrest, htally⟩ := ih _ _ _ hback
    refine ⟨⟨hexact, hrest⟩, ?_⟩
    simpa [pruneBuckets] using htally

/-- **The refinement drain of a bucket keeps the books.** -/
theorem drainBucket_tally (args : TickArgs) (budget : ℕ) (others hs : List Handle)
    (cursor : Option (UInt8 × UInt8)) (d : RefinementDrain)
    (ht : Tally cols rows d.work d.deficit (hs ++ others) d.leftPending total) :
    let r := drainBucket args budget hs cursor d
    DrainBucketExact args budget hs d ∧
      Tally cols rows r.drain.work r.drain.deficit (r.left ++ others) r.drain.leftPending
          total := by
  dsimp only
  fun_induction drainBucket args budget hs cursor d with
  | case1 cursor d => exact ⟨trivial, ht⟩
  | case2 h hs cursor d hw ih =>
    simp only [DrainBucketExact, hw]
    exact ih (ht.skip hw)
  | case3 h hs cursor d w hw hfull =>
    simp only [DrainBucketExact, hw, hfull, if_true]
    exact ⟨trivial, ht⟩
  | case4 h hs cursor d w hw hfull ih =>
    obtain ⟨hpop, hsent⟩ := ht.remove hw
    simp only [DrainBucketExact, hw, hfull, if_false, and_assoc]
    exact ⟨hpop, ih hsent⟩

/-- **So does the drain of every bucket.** -/
theorem drainBuckets_tally (args : TickArgs) (budget : ℕ) (bs : List Bucket) :
    ∀ (done : List Handle) (d : RefinementDrain),
      Tally cols rows d.work d.deficit (done ++ bs.flatMap order) d.leftPending total →
      DrainBucketsExact args budget bs d ∧
        Tally cols rows (drainBuckets args budget bs d).1.work
          (drainBuckets args budget bs d).1.deficit
          (done ++ (drainBuckets args budget bs d).2.flatMap order)
          (drainBuckets args budget bs d).1.leftPending total := by
  induction bs with
  | nil =>
    intro done d ht
    exact ⟨trivial, ht⟩
  | cons b bs ih =>
    intro done d ht
    have hfront : (done ++ (b :: bs).flatMap order).Perm
        (b.order ++ (done ++ bs.flatMap order)) := by
      exact perm_append_comm_assoc _ _ _
    obtain ⟨hexact, hdrained⟩ := drainBucket_tally args budget _ b.order b.cursor d (ht.perm hfront)
    simp only [DrainBucketsExact, drainBuckets]
    generalize drainBucket args budget b.order b.cursor d = r at hdrained ⊢
    by_cases hstop : r.stopped
    · simp only [hstop, if_true, Bool.true_eq_false, false_implies, and_true, flatMap_cons]
      exact ⟨hexact, hdrained.perm (perm_append_comm_assoc _ _ _)⟩
    · obtain ⟨hrest, htally⟩ := ih _ _ (hdrained.perm (perm_to_back _ done _))
      simp only [hstop, if_false, Bool.false_eq_true]
      refine ⟨⟨hexact, fun _ => hrest⟩, ?_⟩
      simpa using htally

end Loops

/-! ### The operations -/

namespace Scheduler

variable {g : History} {s : Scheduler} {fired : List ℕ}

/-- Every subtraction of a tick is from a counter large enough. -/
def TickExact (s : Scheduler) (budget share : ℕ) (now : Instant)
    (recoveryOwned : UInt8 → UInt8 → UInt8 → Bool) : Prop :=
  let args := s.tickArgs now recoveryOwned
  let split := s.splitBudget budget share
  let order := pruneOrder s.work s.priorityOrder
  let first := s.drainPriorityQueue args split.1
  let second := first.1.pruneRefinement
  let start : RefinementDrain := ⟨second.work, second.refinementDeficit, 0, 0, first.2⟩
  DrainPriorityExact args split.1 order.2 ⟨order.1, s.pendingItems, 0, []⟩ ∧
    PruneBucketsExact first.1.work first.1.refinementDeficit first.1.buckets ∧
    DrainBucketsExact args split.2 second.buckets start ∧
    (drainBuckets args split.2 second.buckets start).1.leftPending ≤ second.pendingItems

/-- Superseding the live item of a pass lowers the count of pending items only if it is positive. -/
def RetireExact (s : Scheduler) (x y p : UInt8) : Prop :=
  ∀ h w, s.slots.handle x y p = some h → s.work.get h = some w → w.state = .pending →
    0 < s.pendingItems

/-- So it is for every pass of a tile, one after the other. -/
def RetireAllExact (s : Scheduler) (x y : UInt8) : Prop :=
  Along (fun t p => t.RetireExact x y p) (fun t p => t.supersedeLiveHandle x y p) s passIndices

/-- So it is for every item filed as refinement work, one after the other. -/
def FileAllExact (s : Scheduler) (ws : List TileWork) : Prop :=
  Along (fun t w => t.RetireExact w.tileX w.tileY w.passIdx) fileRefinement s ws

/-- The counters and the queues agree with the slab, and the slots are of the scheduler's grid. -/
structure Balanced (s : Scheduler) : Prop where
  tally : Tally s.cols s.rows s.work s.refinementDeficit s.refinementHandles 0 s.pendingItems
  cols : s.slots.cols = s.cols
  rows : s.slots.rows = s.rows

theorem Balanced.modifySlot (hb : s.Balanced) (x y : UInt8) (f : TileSlot → TileSlot) :
    Balanced { s with slots := s.slots.modifySlot x y f } where
  tally := hb.tally
  cols := (SlotMap.cols_modifySlot s.slots x y f).trans hb.cols
  rows := (SlotMap.rows_modifySlot s.slots x y f).trans hb.rows

/-- Retiring an item keeps the books. -/
theorem retire_balanced (h : Handle) (hb : s.Balanced) :
    (∀ w, s.work.get h = some w → w.state = .pending → 0 < s.pendingItems) ∧
      (s.retire h).Balanced := by
  unfold retire
  cases hw : s.work.get h with
  | none => exact ⟨nofun, hb⟩
  | some w =>
    obtain ⟨hpos, htally⟩ :=
      hb.tally.modify (f := fun w => { w with state := .superseded }) (fun _ => rfl) hw
    refine ⟨?_, ?_⟩
    · intro w' hw' hst
      obtain rfl := Option.some.inj hw'
      exact hpos (by simp [isPending, hst])
    by_cases ha : w.Active
    · simp only [ha, if_true]
      have hcount : s.pendingItems - (if w.isPending then 1 else 0) +
          (if isPending { w with state := .superseded } then 1 else 0) =
            if w.state = .pending then s.pendingItems - 1 else s.pendingItems := by
        by_cases hst : w.state = .pending <;> simp [isPending, hst]
      rw [hcount] at htally
      exact ⟨htally, hb.cols, hb.rows⟩
    · simp only [ha, if_false]
      exact hb

/-- **Superseding passes of a tile keeps the books.** -/
theorem retirePasses_balanced (x y : UInt8) (ps : List UInt8) (hb : s.Balanced) :
    Along (fun t p => t.RetireExact x y p) (fun t p => t.supersedeLiveHandle x y p) s ps ∧
      (s.retirePasses x y ps).Balanced := by
  induction ps generalizing s with
  | nil => exact ⟨trivial, hb⟩
  | cons p ps ih =>
    have hstep : s.RetireExact x y p ∧ (s.supersedeLiveHandle x y p).Balanced := by
      unfold RetireExact supersedeLiveHandle
      cases hh : s.slots.handle x y p with
      | none => exact ⟨nofun, hb⟩
      | some h =>
        obtain ⟨hpos, hretired⟩ := retire_balanced h hb
        refine ⟨?_, hretired⟩
        rintro k w ⟨rfl⟩ hw
        exact hpos w hw
    obtain ⟨hexact, hrest⟩ := ih hstep.2
    exact ⟨⟨hstep.1, hexact⟩, hrest⟩

theorem supersede_balanced (x y : UInt8) (hb : s.Balanced) :
    RetireAllExact { s with slots := s.slots.clearLabel x y } x y ∧
      (s.supersedePendingForTile x y).Balanced :=
  retirePasses_balanced x y passIndices
    (hb.modifySlot x y fun slot => { slot with label := none })

theorem bump_balanced (x y : UInt8) (hb : s.Balanced) :
    Balanced { s with slots := (s.slots.bumpGeneration x y).1 } :=
  hb.modifySlot x y TileSlot.bump

/-- Filing an item, seen through the counters. -/
theorem file_balanced {w : TileWork} (ht : Tracked g s fired) (hb : s.Balanced) :
    s.RetireExact w.tileX w.tileY w.passIdx ∧
      ∃ t : Scheduler, t.Balanced ∧ t.priorityOrder = s.priorityOrder ∧ t.buckets = s.buckets ∧
        t.slots = s.slots ∧ s.file w = t.store w ∧
        (t.work.insert w).2 ∉ t.priorityOrder ++ t.refinementHandles := by
  obtain ⟨hexact, hretired⟩ := retirePasses_balanced w.tileX w.tileY [w.passIdx] hb
  have htracked := retirePasses_tracked w.tileX w.tileY [w.passIdx] ht
  refine ⟨hexact.1, s.retirePasses w.tileX w.tileY [w.passIdx], hretired, ?_, ?_, ?_, rfl,
    htracked.queues.not_mem (get_insert_fresh _ w)⟩
  all_goals
    obtain ⟨work, n, he⟩ := retirePasses_eq s w.tileX w.tileY [w.passIdx]
    rw [he]

/-- **Enqueueing priority work keeps the books.** -/
theorem enqueueAt_balanced {w : TileWork} {now : Instant} (ht : Tracked g s fired)
    (hb : s.Balanced) :
    s.RetireExact w.tileX w.tileY w.passIdx ∧ (s.enqueueAt w now).Balanced := by
  obtain ⟨hexact, t, htb, -, -, -, hfile, hnot⟩ := file_balanced (w := w.queued now) ht hb
  have hslot := htb.modifySlot w.tileX w.tileY fun slot =>
    slot.setHandle w.passIdx (some (t.work.insert (w.queued now)).2)
  refine ⟨hexact, ?_⟩
  unfold enqueueAt
  rw [hfile]
  exact ⟨htb.tally.insert (fun hmem => hnot (mem_append_right _ hmem)) rfl, hslot.cols,
    hslot.rows⟩

/-- **Filing refinement work keeps the books.** -/
theorem fileRefinement_balanced {w : TileWork} (hst : w.state = .pending)
    (ht : Tracked g s fired) (hgrid : s.slots.InGrid w.tileX w.tileY) (hb : s.Balanced) :
    s.RetireExact w.tileX w.tileY w.passIdx ∧ (s.fileRefinement w).Balanced := by
  obtain ⟨hexact, t, htb, -, -, hslots, hfile, hnot⟩ := file_balanced (w := w) ht hb
  have hslot := htb.modifySlot w.tileX w.tileY fun slot =>
    slot.setHandle w.passIdx (some (t.work.insert w).2)
  have hlt : bucketOf w.passIdx < t.buckets.length := by
    rw [t.sized]
    exact lt_of_le_of_lt (min_le_right _ _) (by decide)
  have hperm := flatMap_push_perm (t.work.insert w).2 (w.tileX, w.tileY) t.buckets _ hlt
  rw [← hslots] at hgrid
  have hstored := htb.tally.insertRefinement (w := w)
    (fun hmem => hnot (mem_append_right _ hmem)) (by simp [isPending, hst])
    (htb.cols ▸ hgrid.1) (htb.rows ▸ hgrid.2)
  refine ⟨hexact, ?_⟩
  unfold fileRefinement
  rw [hfile]
  exact ⟨hstored.perm hperm.symm, hslot.cols, hslot.rows⟩

/-- So does filing a list of items. -/
theorem fileAll_balanced (ws : List TileWork) :
    ∀ (s : Scheduler) (g : History), Tracked g s fired → s.Balanced →
      (∀ w ∈ ws, w.state = .pending) →
      (∀ w ∈ ws, s.slots.InGrid w.tileX w.tileY ∧ w.passIdx.toNat < passSlots) →
      s.FileAllExact ws ∧ (ws.foldl fileRefinement s).Balanced := by
  induction ws with
  | nil =>
    intro s g _ hb _ _
    exact ⟨trivial, hb⟩
  | cons w ws ih =>
    intro s g ht hb hst hin
    obtain ⟨hgrid, hpass⟩ := hin w mem_cons_self
    have hw := hst w mem_cons_self
    obtain ⟨hexact, hfiled⟩ := fileRefinement_balanced hw ht hgrid hb
    obtain ⟨hrest, hend⟩ := ih (s.fileRefinement w) _ (fileRefinement_tracked hw ht hgrid hpass)
      hfiled (fun v hv => hst v (mem_cons_of_mem _ hv)) (inGrid_rest hin)
    exact ⟨⟨hexact, hrest⟩, hend⟩

/-- An acknowledgement keeps the books: what it resolves was in flight. -/
theorem markAcked_balanced (x y gen p : UInt8) (hb : s.Balanced) :
    (s.markAcked x y gen p).Balanced := by
  unfold markAcked
  split
  · exact hb
  · rename_i h hh
    let f : TileWork → TileWork := fun w =>
      if w.generation = gen ∧ w.state = .inFlight then { w with state := .acked } else w
    have htile : ∀ w, (f w).tile = w.tile := by
      intro w
      simp only [f]
      split <;> rfl
    have hpend : ∀ w, (f w).isPending = w.isPending := by
      intro w
      simp only [f]
      split
      · rename_i hw
        simp [isPending, hw.2]
      · rfl
    cases hw : s.work.get h with
    | none =>
      have hsame : s.work.modify h f = s.work := by
        unfold Slab.modify
        split
        · rfl
        · rename_i a ha
          rw [hw] at ha
          cases ha
      show Balanced { s with work := s.work.modify h f }
      rw [hsame]
      exact hb
    | some w =>
      obtain ⟨hpos, htally⟩ := hb.tally.modify htile hw
      have hcount : s.pendingItems - (if w.isPending then 1 else 0) +
          (if (f w).isPending then 1 else 0) = s.pendingItems := by
        rw [hpend]
        split
        · rename_i hp
          have := hpos hp
          omega
        · rfl
      rw [hcount] at htally
      exact ⟨htally, hb.cols, hb.rows⟩

/-- **A tick keeps the books, and none of its subtractions stops at zero.** -/
theorem tick_balanced (budget share : ℕ) (now : Instant)
    (recoveryOwned : UInt8 → UInt8 → UInt8 → Bool) (ht : Tracked g s fired) (hb : s.Balanced) :
    s.TickExact budget share now recoveryOwned ∧
      (s.tickAtWith budget share now recoveryOwned).1.Balanced := by
  have hapart : ∀ h ∈ s.priorityOrder, h ∉ s.refinementHandles :=
    fun h hp hr => disjoint_of_nodup_append ht.queues.nodup hp hr
  obtain ⟨horder, -⟩ := pruneOrder_tally s.priorityOrder s.work hapart hb.tally
  obtain ⟨hexact₁, hfirst⟩ := drainPriority_tally (s.tickArgs now recoveryOwned)
    (s.splitBudget budget share).1 (pruneOrder s.work s.priorityOrder).2
    ⟨(pruneOrder s.work s.priorityOrder).1, s.pendingItems, 0, []⟩ horder
  obtain ⟨hexact₂, hsecond⟩ := pruneBuckets_tally s.buckets [] _ _ hfirst
  obtain ⟨hexact₃, hthird⟩ := drainBuckets_tally (s.tickArgs now recoveryOwned)
    (s.splitBudget budget share).2 _ []
    ⟨_, _, 0, 0, (s.drainPriorityQueue (s.tickArgs now recoveryOwned)
      (s.splitBudget budget share).1).2⟩ hsecond
  have hleft := hthird.pending
  refine ⟨⟨hexact₁, hexact₂, hexact₃, ?_⟩, ⟨?_, ?_, ?_⟩⟩
  · exact Nat.le.intro ((Nat.add_comm _ _).trans hleft)
  · exact ⟨hthird.grid, hthird.nodup, hthird.counts, (Nat.eq_sub_of_add_eq hleft)⟩
  · exact hb.cols
  · exact hb.rows

theorem empty_balanced {t : Scheduler} (hwork : ∀ k, t.work.get k = none)
    (hbuckets : t.buckets = List.replicate passSlots {})
    (hdeficit : t.refinementDeficit = .new t.cols t.rows) (hpending : t.pendingItems = 0)
    (hcols : t.slots.cols = t.cols) (hrows : t.slots.rows = t.rows) : t.Balanced := by
  refine ⟨?_, hcols, hrows⟩
  rw [refinementHandles_empty hbuckets, hdeficit, hpending]
  exact Tally.empty t.cols t.rows hwork

end Scheduler

/-! ### Runs -/

namespace SchedOp

/-- No decrement of a counter underflows in the operation. -/
def NoUnderflow (s : Scheduler) : SchedOp → Prop
  | enqueueAt w _ => s.RetireExact w.tileX w.tileY w.passIdx
  | enqueueRefinementWorkAt w _ => s.RetireExact w.tileX w.tileY w.passIdx
  | enqueueRefinementAt x y gen passes now =>
    s.FileAllExact (Scheduler.refinementItems x y gen passes now)
  | enqueueRefinementSubsetAt x y gen mask payloads now =>
    s.FileAllExact (Scheduler.subsetItems x y gen mask payloads now)
  | supersedePendingForTile x y =>
    Scheduler.RetireAllExact { s with slots := s.slots.clearLabel x y } x y
  | bumpGeneration x y => Scheduler.RetireAllExact { s with slots := s.slots.clearLabel x y } x y
  | bumpGenerationCollecting x y => s.RetireAllExact x y
  | tickAtWith budget share now recoveryOwned => s.TickExact budget share now recoveryOwned
  | _ => True

end SchedOp

/-- What the counters, the queues and the slots say in a state. -/
structure Scheduler.Books (s : Scheduler) : Prop where
  /-- `pending_items` is the number of pending items in the slab. -/
  pending : s.pendingItems = s.work.count TileWork.isPending
  /-- An unresolved item is in exactly one queue, once. -/
  queuedOnce : ∀ h w, s.work.get h = some w → w.Active →
    (s.priorityOrder ++ s.refinementHandles).count h = 1
  /-- It is the one its slot holds. -/
  held : ∀ h w, s.work.get h = some w → w.Active →
    s.slots.handle w.tileX w.tileY w.passIdx = some h
  /-- `refinement_deficit_tiles` is the number of distinct tiles with a refinement entry. -/
  deficit : s.refinementDeficit.tiles = (queueTiles s.work s.refinementHandles).toFinset.card

open Scheduler

/-- In step with some history, and balanced. -/
def Scheduler.InOrder (s : Scheduler) : Prop :=
  (∃ g fired, Tracked g s fired) ∧ s.Balanced

theorem Scheduler.InOrder.books {s : Scheduler} (h : s.InOrder) : s.Books := by
  obtain ⟨⟨g, fired, ht⟩, hb⟩ := h
  refine ⟨?_, ?_, ht.items.held, hb.tally.counts.tiles⟩
  · exact hb.tally.pending.symm
  · intro h w hw _
    exact count_eq_one_of_mem ht.queues.nodup ((ht.queues.live h).2 (by simp [hw]))

theorem new_inOrder (cols rows : ℕ) : (Scheduler.new cols rows).InOrder := by
  refine ⟨⟨_, _, (Watch.start_inv cols rows).tracked⟩, ?_⟩
  exact empty_balanced (fun _ => rfl) rfl rfl rfl rfl rfl

/-- **Every operation keeps the books, without an underflow.** -/
theorem apply_inOrder (s : Scheduler) (op : SchedOp) (hs : s.InOrder) (hop : op.WithinGrid s) :
    op.NoUnderflow s ∧ (op.apply s).InOrder := by
  obtain ⟨⟨g, fired, ht⟩, hb⟩ := hs
  have htracked : ∃ g fired, Tracked g (op.apply s) fired :=
    ⟨_, _, (Watch.apply_tracked op hop ht).1⟩
  suffices hbook : op.NoUnderflow s ∧ (op.apply s).Balanced from ⟨hbook.1, htracked, hbook.2⟩
  cases op with
  | enqueueAt w now => exact enqueueAt_balanced ht hb
  | enqueueRefinementWorkAt w now =>
    obtain ⟨hgrid, -⟩ := hop (w.queued now) mem_cons_self
    exact fileRefinement_balanced rfl ht hgrid hb
  | enqueueRefinementAt x y gen passes now =>
    exact fileAll_balanced _ s g ht hb (fun _ hw => Watch.refinementItems_pending hw) hop
  | enqueueRefinementSubsetAt x y gen mask payloads now =>
    exact fileAll_balanced _ s g ht hb (fun _ hw => Watch.subsetItems_pending hw) hop
  | supersedePendingForTile x y => exact supersede_balanced x y hb
  | bumpGeneration x y =>
    obtain ⟨hexact, hretired⟩ := supersede_balanced x y hb
    exact ⟨hexact, bump_balanced x y hretired⟩
  | bumpGenerationCollecting x y =>
    obtain ⟨hexact, hretired⟩ := retirePasses_balanced x y passIndices hb
    have hbump := bump_balanced x y hretired
    rw [← collect_fst s x y passIndices []] at hbump
    exact ⟨hexact, hbump⟩
  | markAcked x y gen p => exact ⟨trivial, markAcked_balanced x y gen p hb⟩
  | recordCdf53Ack x y gen p | frameLabel x y seq => exact ⟨trivial, hb.modifySlot x y _⟩
  | tickAtWith budget share now owned => exact tick_balanced budget share now owned ht hb
  | setRetryAfter | setItemOverhead => exact ⟨trivial, hb.tally, hb.cols, hb.rows⟩
  | clear => exact ⟨trivial, empty_balanced (get_clear s.work) rfl rfl rfl hb.cols hb.rows⟩
  | resize cols rows =>
    exact ⟨trivial, empty_balanced (get_clear s.work) rfl rfl rfl rfl rfl⟩

/-- **The books balance.** In every state of a run that enqueues work for passes of tiles of the
grid, the counters are what a scan of the slab and of the queues would count, every unresolved
item is queued exactly once and is the one its slot holds; and no operation from there lets a
counter underflow. -/
theorem books_balance (cols rows : ℕ) (ops : List SchedOp)
    (hops : Along SchedOp.WithinGrid SchedOp.apply (.new cols rows) ops) :
    (run SchedOp.apply (.new cols rows) ops).Books ∧
      ∀ op : SchedOp, op.WithinGrid (run SchedOp.apply (.new cols rows) ops) →
        op.NoUnderflow (run SchedOp.apply (.new cols rows) ops) := by
  have hinv : (run SchedOp.apply (.new cols rows) ops).InOrder :=
    hops.inv (fun s op hs hop => (apply_inOrder s op hs hop).2) (new_inOrder cols rows)
  exact ⟨hinv.books, fun op hop => (apply_inOrder _ op hinv hop).1⟩

/-- A tile enqueued, changed, enqueued again, drained, retried and acknowledged. -/
theorem books_balance_churn :
    (run SchedOp.apply (.new 2 1) churn).Books ∧
      ∀ op : SchedOp, op.WithinGrid (run SchedOp.apply (.new 2 1) churn) →
        op.NoUnderflow (run SchedOp.apply (.new 2 1) churn) :=
  books_balance 2 1 churn (by decide +kernel)

end Ghostframe.Transport
