import Ghostframe.Lib.RoundRobin
import Ghostframe.Transport.RefillOrder

/-!
# Round robin under continuous change

A round is a refill of the tiles followed by a tick with some refinement budget. Its
new run is rotated to begin behind the tile the last tick sent, so the tiles take
turns whatever the budgets are.

* `Turn`: what one round does; `rounds_served`: the rounds of a run, as the abstract
  rounds of `Rounds`;
* `round_robin`: in as many consecutive ticks as there are tiles, every tile has its
  pass 0 sent, as long as fewer than `2 ^ 31` items have been filed;
* `wrapped_version_loses_a_turn`: with as many, a stale handle resolves again and a
  tile loses its turn.
-/

namespace Ghostframe.Transport

open Scheduler List Nat Slab UInt32

/-! ### What a tick leaves alone -/

section Frames

variable {k : Handle}

theorem get_pruneOrder (hs : List Handle) (hk : k ∉ hs) (work : Slab TileWork) :
    (pruneOrder work hs).1.get k = work.get k := by
  fun_induction pruneOrder work hs with
  | case1 work => rfl
  | case2 work h hs w hw hdone ih =>
    obtain ⟨hne, hrest⟩ := not_or.1 (mem_cons.not.1 hk)
    rw [ih hrest, get_remove, if_neg hne]
  | case3 work h hs w hw hdone ih | case4 work h hs hw ih => exact ih (not_mem_of_not_mem_cons hk)

theorem get_drainPriority (args : TickArgs) (budget : ℕ) (hs : List Handle) (hk : k ∉ hs) :
    ∀ d : PriorityDrain, (drainPriority args budget hs d).work.get k = d.work.get k := by
  induction hs with
  | nil => exact fun _ => rfl
  | cons h hs ih =>
    intro d
    obtain ⟨hne, hrest⟩ := not_or.1 (mem_cons.not.1 hk)
    unfold drainPriority
    split
    · exact ih hrest d
    · split
      · exact ih hrest d
      · split
        · rfl
        · rw [ih hrest, PriorityDrain.get_send_ne hne]

theorem get_priorityDrained (s : Scheduler) (budget share : ℕ) (now : Instant)
    (recoveryOwned : UInt8 → UInt8 → UInt8 → Bool) (hk : k ∉ s.priorityOrder) :
    (s.priorityDrained budget share now recoveryOwned).1.work.get k = s.work.get k := by
  have hpruned : k ∉ (pruneOrder s.work s.priorityOrder).2 :=
    fun hmem => hk ((pruneOrder_sublist s.priorityOrder s.work).1.subset hmem)
  show (drainPriority _ _ _ _).work.get k = _
  rw [get_drainPriority _ _ _ hpruned]
  exact get_pruneOrder s.priorityOrder hk s.work

theorem get_pruneBucket (start : Option ℕ) (hs : List Handle) (hk : k ∉ hs) :
    ∀ (i : ℕ) (acc : Pruned), (pruneBucket start i hs acc).work.get k = acc.work.get k := by
  induction hs with
  | nil => exact fun _ _ => rfl
  | cons h hs ih =>
    intro i acc
    obtain ⟨hne, hrest⟩ := not_or.1 (mem_cons.not.1 hk)
    unfold pruneBucket
    simp only
    split
    · split
      · rw [ih hrest]
        exact (get_remove _ _ _).trans (if_neg hne)
      · exact ih hrest _ _
    · exact ih hrest _ _

/-- Pruning buckets touches the items of their entries only. -/
theorem get_pruneBuckets (bs : List Bucket) (hk : k ∉ bs.flatMap Bucket.order) :
    ∀ (work : Slab TileWork) (deficit : RefinementDeficit),
      (pruneBuckets work deficit bs).1.get k = work.get k := by
  induction bs with
  | nil => exact fun _ _ => rfl
  | cons b bs ih =>
    intro work deficit
    rw [flatMap_cons, mem_append, not_or] at hk
    simp only [pruneBuckets]
    rw [ih hk.2, get_pruneBucket _ _ hk.1]

end Frames

/-! ### The bucket a tick drains -/

theorem pruneBucket_append (start : Option ℕ) (hs hs' : List Handle) :
    ∀ (i : ℕ) (acc : Pruned), pruneBucket start i (hs ++ hs') acc =
      pruneBucket start (i + hs.length) hs' (pruneBucket start i hs acc) := by
  induction hs with
  | nil => exact fun _ _ => rfl
  | cons h hs ih =>
    intro i acc
    have hlen : i + (h :: hs).length = i + 1 + hs.length := by
      rw [length_cons]
      omega
    rw [hlen, cons_append]
    cases hw : acc.work.get h with
    | none =>
      simp only [pruneBucket, hw]
      exact ih _ _
    | some w =>
      by_cases hdone : w.Terminal
      · simp only [pruneBucket, hw, hdone, if_true]
        exact ih _ _
      · simp only [pruneBucket, hw, hdone, if_false]
        exact ih _ _

/-- Resolved entries go; those before the new run are counted. -/
theorem pruneBucket_resolved (f : ℕ) (old : List Handle) (i : ℕ) (acc : Pruned)
    (hold : ∀ h ∈ old, ∀ w, acc.work.get h = some w → w.Terminal) :
    (pruneBucket (some f) i old acc).kept = acc.kept ∧
      (pruneBucket (some f) i old acc).removedBeforeFresh + min f i =
        acc.removedBeforeFresh + min f (i + old.length) := by
  have hcount : ∀ i, min f (i + 1) = min f i + if (some f).any fun f => i < f then 1 else 0 := by
    intro i
    simp only [Option.any_some, decide_eq_true_eq]
    split <;> omega
  fun_induction pruneBucket (some f) i old acc with
  | case1 i acc => exact ⟨rfl, rfl⟩
  | case2 i h old acc removed w hw hdone ih =>
    rw [forall_mem_cons] at hold
    obtain ⟨hkept, hremoved⟩ :=
      ih fun k hk v hv => hold.2 k hk v (Shrinks.remove acc.work h k v hv)
    refine ⟨hkept, ?_⟩
    simp only [hcount, length_cons] at hremoved ⊢
    omega
  | case3 i h old acc w hw hdone ih => exact absurd (hold h mem_cons_self w hw) hdone
  | case4 i h old acc removed hw ih =>
    obtain ⟨hkept, hremoved⟩ := ih (forall_mem_cons.1 hold).2
    refine ⟨hkept, ?_⟩
    simp only [hcount, length_cons] at hremoved ⊢
    omega

/-- Unresolved entries stay. -/
theorem pruneBucket_unresolved_eq (start : Option ℕ) (hs : List Handle) :
    ∀ (i : ℕ) (acc : Pruned), (∀ h ∈ hs, ∃ w, acc.work.get h = some w ∧ w.Active) →
      pruneBucket start i hs acc = { acc with kept := acc.kept ++ hs } := by
  induction hs with
  | nil =>
    intro i acc _
    simp [pruneBucket]
  | cons h hs ih =>
    intro i acc hact
    obtain ⟨w, hw, ha⟩ := hact h mem_cons_self
    have hdone : ¬ w.Terminal := (w.active_iff_not_terminal).1 ha
    simp only [pruneBucket, hw, hdone, if_false]
    have hrest := ih (i + 1) { acc with kept := acc.kept ++ [h] }
      fun k hk => hact k (mem_cons_of_mem _ hk)
    simpa using hrest

/-- Among the entries of the tiles, the first one of a tile is at its place. -/
theorem findIdx?_isOfTile {work : Slab TileWork} {tiles : List (UInt8 × UInt8)}
    {fresh : List Handle} (hq : List.Forall₂ (QueuedZero work) tiles fresh) (c : UInt8 × UInt8) :
    fresh.findIdx? (isOfTile work c) =
      if c ∈ tiles then some (@List.idxOf _ instBEqOfDecidableEq c tiles) else none := by
  induction hq with
  | nil => rfl
  | @cons t h ts hs hd _ ih =>
    obtain ⟨w, hw, -, rfl, -⟩ := hd
    have hof : isOfTile work c h = decide (w.tile = c) := by
      simp [isOfTile, hw, TileWork.tile, Prod.ext_iff]
    rw [findIdx?_cons, hof, ih]
    by_cases hc : w.tile = c
    · simp [hc]
    · have hc' : ¬ c = w.tile := fun he => hc he.symm
      by_cases hmem : c ∈ ts <;> simp [hc, hc', hmem]

section Drained

variable {cursor : Option (UInt8 × UInt8)} {tiles : List (UInt8 × UInt8)} {s : Scheduler}
  {old fresh : List Handle}

/-- **Pruning keeps the new part of the bucket of pass 0, and nothing else.** -/
theorem pruneBucket_front (hf : Filling cursor tiles [] s old fresh) {f : ℕ}
    (hstart : s.front.fresh.start = some f) {work : Slab TileWork} (deficit : RefinementDeficit)
    (hwork : ∀ h ∈ s.front.order, work.get h = s.work.get h) (hnodup : s.front.order.Nodup) :
    let pruned := pruneBucket s.front.fresh.start 0 s.front.order ⟨work, deficit, [], 0⟩
    pruned.kept = fresh ∧ pruned.removedBeforeFresh = f ∧
      ∀ h ∈ fresh, pruned.work.get h = s.work.get h := by
  have hold : ∀ h ∈ old, ∀ w, work.get h = some w → w.Terminal := by
    intro h hh w hw
    rw [hwork h (hf.order ▸ mem_append_left _ hh)] at hw
    by_contra hnot
    exact absurd (hf.stale h hh w hw ((w.active_iff_not_terminal).2 hnot)) not_mem_nil
  have hapart : ∀ h ∈ fresh, h ∉ old := by
    intro h hh ho
    rw [hf.order] at hnodup
    exact disjoint_of_nodup_append hnodup ho hh
  obtain ⟨hkept, hremoved⟩ := pruneBucket_resolved f old 0 ⟨work, deficit, [], 0⟩ hold
  have hget : ∀ h ∈ fresh,
      (pruneBucket (some f) 0 old ⟨work, deficit, [], 0⟩).work.get h = s.work.get h := by
    intro h hh
    rw [get_pruneBucket _ _ (hapart h hh)]
    exact hwork h (hf.order ▸ mem_append_right _ hh)
  rw [hf.order, hstart, pruneBucket_append, zero_add, pruneBucket_unresolved_eq]
  · have hwithin := hf.start f hstart
    simp only [min_zero, add_zero, zero_add, min_eq_left hwithin] at hremoved
    exact ⟨by simp [hkept], hremoved, hget⟩
  · intro h hh
    obtain ⟨w, hw, hst, -⟩ := hf.tile_mem_done hh
    exact ⟨w, (hget h hh).trans hw, .inl hst⟩

/-- **The bucket is then rotated, to begin behind the cursor.** -/
theorem rotateFresh_eq (hf : Filling cursor tiles [] s old fresh) {f : ℕ}
    (hstart : s.front.fresh.start = some f) {pruned : Pruned} (hkept : pruned.kept = fresh)
    (hremoved : pruned.removedBeforeFresh = f)
    (hget : ∀ h ∈ fresh, pruned.work.get h = s.work.get h) :
    rotateFresh s.front pruned = fresh.rotate (startAt tiles cursor) := by
  have hqueued := queuedZero_congr hf.queued hget
  unfold rotateFresh
  rw [hstart, hf.cursor]
  cases cursor with
  | none => simp [startAt, hkept]
  | some c =>
    simp only [startAt, hkept]
    rw [hremoved, Nat.sub_self]
    by_cases hc : c ∈ tiles
    · rw [if_pos (hf.pushed c hc hf.cursor), if_pos hc, rotatePast, drop_zero,
        findIdx?_isOfTile hqueued, if_pos hc]
      simp only [take_zero, nil_append]
    · rw [if_neg hc, rotate_zero]
      split
      · rw [rotatePast, drop_zero, findIdx?_isOfTile hqueued, if_neg hc]
      · rfl

end Drained

/-- What the drain of a bucket of live entries does: it sends a front of the bucket, and the cursor
follows the last entry sent. -/
structure FrontSent (args : TickArgs) (budget : ℕ) (hs : List Handle)
    (cursor : Option (UInt8 × UInt8))
    (d : RefinementDrain) (r : BucketDrain) (sent : List SentWork) : Prop where
  out : r.drain.out = d.out ++ sent
  split : hs = sent.map SentWork.handle ++ r.left
  items : ∀ e ∈ sent, ∃ w, d.work.get e.handle = some w ∧ e.work = w.sent args.now
  cursor : r.cursor = if sent = [] then cursor else sent.getLast?.map fun e => e.work.tile
  progress : ∀ h rest w, hs = h :: rest → d.work.get h = some w →
    ¬ d.exhausted budget (args.cost w) → sent ≠ []

/-- **The drain of a bucket sends a front of it.** -/
theorem drainBucket_front (args : TickArgs) (budget : ℕ) (hs : List Handle)
    (cursor : Option (UInt8 × UInt8)) (d : RefinementDrain)
    (hlive : ∀ h ∈ hs, ∃ w, d.work.get h = some w) (hnodup : hs.Nodup) :
    ∃ sent, FrontSent args budget hs cursor d (drainBucket args budget hs cursor d) sent := by
  fun_induction drainBucket args budget hs cursor d with
  | case1 cursor d => exact ⟨[], by simp, rfl, by simp, rfl, by simp⟩
  | case2 h hs cursor d hw ih =>
    obtain ⟨w, hlive⟩ := hlive h mem_cons_self
    rw [hw] at hlive
    cases hlive
  | case3 h hs cursor d w hw hfull =>
    refine ⟨[], by simp, rfl, by simp, rfl, ?_⟩
    intro k rest v hk hv hgo
    obtain ⟨rfl, rfl⟩ := List.cons.inj hk
    rw [hw] at hv
    obtain rfl := Option.some.inj hv
    exact absurd hfull hgo
  | case4 h hs cursor d w hw hfull ih =>
    obtain ⟨hnot, hrest⟩ := nodup_cons.1 hnodup
    have hget : ∀ k ∈ hs, (d.send args h w).work.get k = d.work.get k := by
      intro k hk
      refine (get_remove d.work h k).trans (if_neg ?_)
      rintro rfl
      exact hnot hk
    obtain ⟨sent, hsent⟩ := ih
      (fun k hk => by rw [hget k hk]; exact hlive k (mem_cons_of_mem _ hk)) hrest
    refine ⟨⟨h, false, w.sent args.now⟩ :: sent, ?_, ?_, ?_, ?_, ?_⟩
    · rw [hsent.out]
      simp [RefinementDrain.send]
    · rw [map_cons, cons_append, ← hsent.split]
    · intro e he
      rcases mem_cons.1 he with rfl | he
      · exact ⟨w, hw, rfl⟩
      · obtain ⟨v, hv, hwork⟩ := hsent.items e he
        have hmem : e.handle ∈ hs := by
          rw [hsent.split]
          exact mem_append_left _ (mem_map_of_mem he)
        exact ⟨v, hget _ hmem ▸ hv, hwork⟩
    · rw [hsent.cursor]
      cases sent with
      | nil => rfl
      | cons e sent => simp
    · exact fun _ _ _ _ _ _ => cons_ne_nil _ _

/-- A drain adds to what was sent and takes from the slab. -/
theorem drainBuckets_extends (args : TickArgs) (budget : ℕ) (bs : List Bucket)
    (d : RefinementDrain) :
    d.out <+: (drainBuckets args budget bs d).1.out ∧
      Shrinks d.work (drainBuckets args budget bs d).1.work := by
  refine drainBuckets_inv args budget
    (P := fun d' => d.out <+: d'.out ∧ Shrinks d.work d'.work) ?_ bs d
    ⟨prefix_refl _, fun _ _ hw => hw⟩
  rintro d' h w ⟨hout, hshrink⟩ -
  exact ⟨hout.trans (prefix_append _ _), hshrink.trans (Shrinks.remove d'.work h)⟩

/-- The first bucket after a drain, and what was sent from it. -/
theorem drainBuckets_head (args : TickArgs) (budget : ℕ) (b : Bucket) (bs : List Bucket)
    (d : RefinementDrain) :
    let r := drainBucket args budget b.order b.cursor d
    (drainBuckets args budget (b :: bs) d).2.headD {} = ⟨r.left, r.cursor, b.fresh⟩ ∧
      r.drain.out <+: (drainBuckets args budget (b :: bs) d).1.out := by
  simp only [drainBuckets]
  split
  · exact ⟨rfl, prefix_refl _⟩
  · exact ⟨rfl, (drainBuckets_extends args budget bs _).1⟩

/-- The tile of the work of a handle. -/
def tileAt (work : Slab TileWork) (h : Handle) : UInt8 × UInt8 :=
  ((work.get h).map TileWork.tile).getD (0, 0)

theorem map_tileAt {work : Slab TileWork} {tiles : List (UInt8 × UInt8)} {fresh : List Handle}
    (hq : List.Forall₂ (QueuedZero work) tiles fresh) : fresh.map (tileAt work) = tiles := by
  induction hq with
  | nil => rfl
  | cons hd _ ih =>
    obtain ⟨w, hw, -, rfl, -⟩ := hd
    rw [map_cons, ih]
    simp [tileAt, hw]

/-! ### Turns -/

/-- What a tick after a refill does: it serves the tiles from behind the cursor, sends their pass 0,
and leaves a bucket of these tiles. -/
structure Turn (tiles : List (UInt8 × UInt8)) (cursor : Option (UInt8 × UInt8)) (s' : Scheduler)
    (out : List SentWork) (served : List (UInt8 × UInt8)) : Prop where
  some : served ≠ []
  inTurn : served <+: fromCursor tiles cursor
  sent : ∀ t ∈ served, ∃ e ∈ out, e.work.tile = t ∧ e.work.passIdx = 0
  ready : Filling served.getLast? [] tiles s' s'.front.order []

variable {s : Scheduler}

/-- Before its drain, the bucket of pass 0 is its new part, rotated, with the items as they were. -/
theorem pruned_front {cursor : Option (UInt8 × UInt8)} {tiles : List (UInt8 × UInt8)}
    {old fresh : List Handle} (hf : Filling cursor tiles [] s old fresh)
    (hne : tiles ≠ []) (ho : s.Ordered) (budget share : ℕ) (now : Instant)
    (recoveryOwned : UInt8 → UInt8 → UInt8 → Bool) :
    let s' := (s.priorityDrained budget share now recoveryOwned).1.pruneRefinement
    (∃ bs, s'.buckets = ⟨fresh.rotate (startAt tiles cursor), s.front.cursor, {}⟩ :: bs) ∧
      (∀ h ∈ fresh, s'.work.get h = s.work.get h) ∧ fresh.Nodup := by
  obtain ⟨f, hstart⟩ := Option.ne_none_iff_exists'.1 (hf.started hne)
  obtain ⟨bs, hb⟩ := buckets_eq_cons s
  let first := s.priorityDrained budget share now recoveryOwned
  have hfirst : first.1.buckets = s.front :: bs := hb
  -- the queues are apart: the priority drain and the other buckets leave the entries
  have hrefi : (s.front.order ++ bs.flatMap Bucket.order).Nodup := by
    have := (nodup_append.1 ho.queues.nodup).2.1
    rwa [refinementHandles, hb, flatMap_cons] at this
  have hfront : s.front.order.Nodup := (nodup_append.1 hrefi).1
  have hwork : ∀ h ∈ s.front.order, first.1.work.get h = s.work.get h := by
    intro h hh
    refine get_priorityDrained s budget share now recoveryOwned ?_
    intro hprio
    exact disjoint_of_nodup_append ho.queues.nodup hprio (mem_refinementHandles_of_front hh)
  obtain ⟨hkept, hremoved, hgot⟩ :=
    pruneBucket_front hf hstart first.1.refinementDeficit hwork hfront
  refine ⟨?_, fun h hh => ?_, ?_⟩
  · apply Exists.intro
    show (pruneBuckets first.1.work first.1.refinementDeficit first.1.buckets).2.2 = _
    rw [hfirst, pruneBuckets, rotateFresh_eq hf hstart hkept hremoved hgot]
  · show (pruneBuckets first.1.work first.1.refinementDeficit first.1.buckets).1.get h = _
    rw [hfirst, pruneBuckets, get_pruneBuckets, hgot h hh]
    have hmem : h ∈ s.front.order := hf.order ▸ mem_append_right _ hh
    exact fun hother => disjoint_of_nodup_append hrefi hmem hother
  · rw [hf.order] at hfront
    exact (nodup_append.1 hfront).2.1

/-- **A tick after a refill takes a turn.** -/
theorem tick_turn {cursor : Option (UInt8 × UInt8)} {tiles : List (UInt8 × UInt8)}
    {old fresh : List Handle} (hf : Filling cursor tiles [] s old fresh) (hne : tiles ≠ [])
    (ho : s.Ordered) (budget share : ℕ) (now : Instant)
    (recoveryOwned : UInt8 → UInt8 → UInt8 → Bool) (hbudget : 0 < (s.splitBudget budget share).2) :
    ∃ served, Turn tiles cursor (s.tickAtWith budget share now recoveryOwned).1
      (s.tickAtWith budget share now recoveryOwned).2 served := by
  obtain ⟨⟨bs, hbuckets⟩, hslab, hnodup⟩ := pruned_front hf hne ho budget share now recoveryOwned
  let args := s.tickArgs now recoveryOwned
  let first := s.priorityDrained budget share now recoveryOwned
  let hs := fresh.rotate (startAt tiles cursor)
  let d : RefinementDrain :=
    ⟨first.1.pruneRefinement.work, first.1.pruneRefinement.refinementDeficit, 0, 0, first.2⟩
  let r := drainBucket args (s.splitBudget budget share).2 hs s.front.cursor d
  have hmem : ∀ {h}, h ∈ hs → h ∈ fresh := fun hh => mem_rotate.1 hh
  have hlive : ∀ h ∈ hs, ∃ w, d.work.get h = some w := by
    intro h hh
    obtain ⟨w, hw, -⟩ := hf.tile_mem_done (hmem hh)
    exact ⟨w, (hslab h (hmem hh)).trans hw⟩
  -- the drain of the bucket of pass 0 sends a front of it
  obtain ⟨sent, hsent⟩ : ∃ sent, FrontSent args _ hs s.front.cursor d r sent :=
    drainBucket_front args _ hs s.front.cursor d hlive (nodup_rotate.2 hnodup)
  obtain ⟨hhead, hprefix⟩ := drainBuckets_head args (s.splitBudget budget share).2
    ⟨hs, s.front.cursor, {}⟩ bs d
  have hshrink := (drainBuckets_extends args (s.splitBudget budget share).2
    first.1.pruneRefinement.buckets d).2
  have hfront : (s.tickAtWith budget share now recoveryOwned).1.front = ⟨r.left, r.cursor, {}⟩ := by
    show (drainBuckets args _ first.1.pruneRefinement.buckets d).2.headD {} = _
    rw [hbuckets]
    exact hhead
  have hout : ∀ e ∈ sent, e ∈ (s.tickAtWith budget share now recoveryOwned).2 := by
    intro e he
    show e ∈ (drainBuckets args _ first.1.pruneRefinement.buckets d).1.out
    rw [hbuckets]
    refine hprefix.subset ?_
    rw [hsent.out]
    exact mem_append_right _ he
  have hitem : ∀ e ∈ sent, e.work.tile = tileAt s.work e.handle ∧ e.work.passIdx = 0 := by
    intro e he
    have hh : e.handle ∈ fresh := by
      refine hmem ?_
      rw [hsent.split]
      exact mem_append_left _ (mem_map_of_mem he)
    obtain ⟨w, hw, hwork⟩ := hsent.items e he
    have hw : s.work.get e.handle = some w := (hslab _ hh).symm.trans hw
    obtain ⟨v, hv, -, -, hpass⟩ := hf.tile_mem_done hh
    obtain rfl : w = v := Option.some.inj (hw.symm.trans hv)
    rw [hwork]
    exact ⟨by simp [tileAt, hw, TileWork.tile, TileWork.sent], hpass⟩
  have hsome : sent ≠ [] := by
    have hlen : 0 < hs.length := by
      rw [length_rotate, ← hf.queued.length_eq]
      exact length_pos_iff.2 hne
    obtain ⟨h, rest, hcons⟩ := exists_cons_of_length_pos hlen
    obtain ⟨w, hw⟩ := hlive h (hcons ▸ mem_cons_self)
    refine hsent.progress h rest w hcons hw ?_
    show ¬ (_ ∨ (0 < 0 ∧ _))
    omega
  have hserved :
      sent.map (fun e => e.work.tile) = (sent.map SentWork.handle).map (tileAt s.work) := by
    rw [map_map]
    exact map_congr_left fun e he => (hitem e he).1
  refine ⟨sent.map fun e => e.work.tile, ?_, ?_, ?_, ?_⟩
  · simpa using hsome
  · refine ⟨r.left.map (tileAt s.work), ?_⟩
    rw [hserved, ← map_append, ← hsent.split, map_rotate, map_tileAt hf.queued]
    rfl
  · intro t ht
    obtain ⟨e, he, rfl⟩ := mem_map.1 ht
    exact ⟨e, hout e he, rfl, (hitem e he).2⟩
  -- what is left of the bucket is the old part of the next refill
  · refine ⟨?_, .nil, ?_, ?_, by simp, by simp, ?_⟩
    · rw [append_nil]
    · intro h hh w hw _
      rw [hfront] at hh
      have hh : h ∈ fresh := by
        refine hmem ?_
        rw [hsent.split]
        exact mem_append_right _ hh
      obtain ⟨v, hv, -, htile, -⟩ := hf.tile_mem_done hh
      have hget := (hslab h hh).symm.trans (hshrink h w hw)
      obtain rfl : w = v := Option.some.inj (hget.symm.trans hv)
      exact htile
    · intro f' hf'
      rw [hfront] at hf'
      cases hf'
    · rw [hfront]
      show r.cursor = _
      rw [hsent.cursor, if_neg hsome, getLast?_map]

/-! ### Rounds -/

/-- What happens before a tick, and what the tick is given. -/
structure Round where
  refill : List SchedOp
  budget : ℕ
  share : ℕ
  now : Instant
  recoveryOwned : UInt8 → UInt8 → UInt8 → Bool

open Round

namespace Round

/-- The scheduler when the tick of the round begins. -/
def refilled (s : Scheduler) (r : Round) : Scheduler := run SchedOp.apply s r.refill

/-- The tick of the round. -/
def tick (s : Scheduler) (r : Round) : Scheduler × List SentWork :=
  (r.refilled s).tickAtWith r.budget r.share r.now r.recoveryOwned

/-- The scheduler after the round. -/
def next (s : Scheduler) (r : Round) : Scheduler := (r.tick s).1

/-- What the ticks of a sequence of rounds send. -/
def sends (s : Scheduler) : List Round → List (List SentWork)
  | [] => []
  | r :: rs => (r.tick s).2 :: sends (r.next s) rs

/-- All tiles are queued again, on the grid, and the tick has a refinement budget. -/
def Ok (tiles : List (UInt8 × UInt8)) (s : Scheduler) (r : Round) : Prop :=
  Refills tiles tiles r.refill ∧ Along SchedOp.WithinGrid SchedOp.apply s r.refill ∧
    0 < ((r.refilled s).splitBudget r.budget r.share).2

/-- The items a sequence of rounds files. -/
def filed (rs : List Round) : ℕ := (rs.map fun r => filedBy r.refill).sum

/-- Before a round: the unresolved pass-0 work queued for refinement is of these tiles. -/
structure Ready (tiles : List (UInt8 × UInt8)) (cursor : Option (UInt8 × UInt8)) (s : Scheduler)
    (n : ℕ) : Prop where
  steady : s.Steady n
  filling : Filling cursor [] tiles s s.front.order []

variable {tiles : List (UInt8 × UInt8)} {cursor : Option (UInt8 × UInt8)} {s : Scheduler} {n : ℕ}

/-- **What one round does.** -/
theorem next_ready (hnodup : tiles.Nodup) (hne : tiles ≠ []) {r : Round}
    (hs : Ready tiles cursor s n) (hok : Ok tiles s r) (hn : n + filedBy r.refill < 2 ^ 31) :
    ∃ served, Turn tiles cursor (r.next s) (r.tick s).2 served ∧
      Ready tiles served.getLast? (r.next s) (n + filedBy r.refill) := by
  obtain ⟨hrefill, hgrid, hbudget⟩ := hok
  have hsteady := run_steady r.refill hs.steady hgrid hn
  obtain ⟨fresh, hfilled⟩ :=
    refill_filling hnodup hrefill rfl hs.steady hs.filling hgrid hn
  obtain ⟨served, hturn⟩ := tick_turn hfilled hne hsteady.ordered r.budget r.share r.now
    r.recoveryOwned hbudget
  refine ⟨served, hturn, ?_, hturn.ready⟩
  exact apply_steady (.tickAtWith r.budget r.share r.now r.recoveryOwned) nofun hn hsteady

/-- **The rounds of a run are rounds of the round robin.** -/
theorem rounds_served (hnodup : tiles.Nodup) (hne : tiles ≠ []) (rs : List Round) :
    ∀ {cursor : Option (UInt8 × UInt8)} {s : Scheduler} {n : ℕ}, Ready tiles cursor s n →
      Along (Ok tiles) next s rs → n + filed rs < 2 ^ 31 →
      (∃ cursor', Ready tiles cursor' (run next s rs) (n + filed rs)) ∧
      ∃ turns, Rounds tiles cursor turns ∧ turns.length = rs.length ∧
        ∀ served ∈ turns, ∀ t ∈ served, ∃ out ∈ sends s rs, ∃ e ∈ out,
          e.work.tile = t ∧ e.work.passIdx = 0 := by
  induction rs with
  | nil => exact fun hs _ _ => ⟨⟨_, hs⟩, [], trivial, rfl, nofun⟩
  | cons r rs ih =>
    intro cursor s n hs hok hn
    rw [filed, map_cons, sum_cons] at hn ⊢
    obtain ⟨served, hturn, hready⟩ := next_ready hnodup hne hs hok.1 (by omega)
    obtain ⟨hlast, turns, hrounds, hlen, hsent⟩ := ih hready hok.2 (by rw [filed]; omega)
    rw [run_cons, ← add_assoc]
    refine ⟨hlast, served :: turns, ⟨hturn.some, hturn.inTurn, hrounds⟩, by simp [hlen], ?_⟩
    intro served' hmem t ht
    rcases mem_cons.1 hmem with rfl | hmem
    · exact ⟨_, mem_cons_self, hturn.sent t ht⟩
    · obtain ⟨out, hout, he⟩ := hsent served' hmem t ht
      exact ⟨out, mem_cons_of_mem _ hout, he⟩

end Round

/-- **Round robin.** From a state of a run in which the unresolved pass-0 work queued for
refinement is of the tiles `tiles`, take rounds that each queue all these tiles again, in this
order, and then tick with any positive refinement budget. In any window of as many consecutive
ticks as there are tiles, every tile has its pass 0 sent, as long as the run files fewer than
`2 ^ 31` items. -/
theorem round_robin (cols rows : ℕ) (prior : List SchedOp)
    (hprior : Along SchedOp.WithinGrid SchedOp.apply (.new cols rows) prior)
    (tiles : List (UInt8 × UInt8)) (hnodup : tiles.Nodup)
    (hquiet : ∀ h ∈ (run SchedOp.apply (.new cols rows) prior).front.order, ∀ w,
      (run SchedOp.apply (.new cols rows) prior).work.get h = some w → w.Active → w.tile ∈ tiles)
    (before window : List Round)
    (hok : Along (Round.Ok tiles) Round.next (run SchedOp.apply (.new cols rows) prior)
      (before ++ window))
    (hlen : window.length = tiles.length)
    (hfiled : filedBy prior + Round.filed (before ++ window) < 2 ^ 31) :
    ∀ t ∈ tiles, ∃ out ∈ Round.sends
        (run Round.next (run SchedOp.apply (.new cols rows) prior) before) window,
      ∃ e ∈ out, e.work.tile = t ∧ e.work.passIdx = 0 := by
  intro t ht
  have hne : tiles ≠ [] := ne_nil_of_mem ht
  rw [filed, map_append, sum_append_nat] at hfiled
  obtain ⟨hbefore, hwindow⟩ := along_append.1 hok
  have hsteady := run_steady prior (new_steady cols rows) hprior (by omega)
  rw [zero_add] at hsteady
  generalize run SchedOp.apply (Scheduler.new cols rows) prior = s at *
  have hready : Round.Ready tiles s.front.cursor s (filedBy prior) := by
    refine ⟨hsteady, by simp, .nil, hquiet, ?_, nofun, nofun, rfl⟩
    obtain ⟨bs, hb⟩ := buckets_eq_cons s
    exact hsteady.fresh s.front (hb ▸ mem_cons_self)
  obtain ⟨⟨cursor, hready⟩, -⟩ := rounds_served hnodup hne before hready hbefore
    (by rw [filed]; omega)
  obtain ⟨-, turns, hrounds, hturns, hsent⟩ := rounds_served hnodup hne window hready hwindow
    (by rw [filed, filed]; omega)
  obtain ⟨served, hmem, hts⟩ := hrounds.all_served hnodup (by omega) ht
  exact hsent served hmem t hts

/-- The two tiles of a screen, queued again with a pass of one byte each; the budget is for one. -/
def refillTwo : Round where
  refill := [.supersedePendingForTile 0 0, .enqueueRefinementAt 0 0 0 [[1]] 0,
    .supersedePendingForTile 1 0, .enqueueRefinementAt 1 0 0 [[1]] 0]
  budget := 1
  share := 0
  now := 0
  recoveryOwned := fun _ _ _ => false

/-- Two ticks with a budget of one byte serve both tiles. -/
theorem round_robin_two_tiles :
    [refillTwo, refillTwo].length = [((0 : UInt8), (0 : UInt8)), (1, 0)].length ∧
      ∀ t ∈ [((0 : UInt8), (0 : UInt8)), (1, 0)],
        ∃ out ∈ Round.sends (.new 2 1) [refillTwo, refillTwo],
          ∃ e ∈ out, e.work.tile = t ∧ e.work.passIdx = 0 := by
  have hrefills : Refills [(0, 0), (1, 0)] [(0, 0), (1, 0)] refillTwo.refill :=
    .supersede (by decide) rfl (.queue ⟨rfl, by decide, by decide⟩
      (.supersede (by decide) rfl (.queue ⟨rfl, by decide, by decide⟩ .done)))
  have hok : Along (Round.Ok [(0, 0), (1, 0)]) next (.new 2 1) [refillTwo, refillTwo] :=
    ⟨⟨hrefills, by decide +kernel, by decide +kernel⟩,
      ⟨hrefills, by decide +kernel, by decide +kernel⟩, trivial⟩
  exact ⟨rfl,
    round_robin 2 1 [] trivial [(0, 0), (1, 0)] (by decide) nofun [] [refillTwo, refillTwo]
    hok rfl (by decide)⟩

/-! ### A version that comes around -/

/-- A screen of one tile, queued again with these passes. -/
def spin (passes : List Bytes) : Round where
  refill := [.supersedePendingForTile 0 0, .enqueueRefinementAt 0 0 0 passes 0]
  budget := 100
  share := 0
  now := 0
  recoveryOwned := fun _ _ _ => false

/-- The handles of its slot: that of pass 0, and in pass 1 the one of the first round. -/
def spunPasses (h : Handle) : Fin passSlots → Option Handle :=
  Function.update (Function.update (fun _ => none) ⟨0, by decide⟩ (some h)) ⟨1, by decide⟩
    (some ⟨1, 1⟩)

/-- The scheduler of one tile between two such rounds: both cells are vacant, the slot of pass 1
still holds the handle of the first round. -/
def spun (h : Handle) (v : UInt32) : Scheduler where
  cols := 1
  rows := 1
  work := ⟨[⟨2, none⟩, ⟨v, none⟩], [1, 0], by simp, by decide⟩
  priorityOrder := []
  buckets := ⟨[], some (0, 0), {}⟩ :: ⟨[], some (0, 0), {}⟩ :: List.replicate 12 {}
  pendingItems := 0
  refinementDeficit := ⟨1, [0], 0⟩
  retryAfter := fromMillis 40
  itemOverhead := 0
  slots := ⟨1, 1, [⟨0, none, 0, spunPasses h⟩], rfl⟩
  sized := rfl

set_option maxRecDepth 100000 in
theorem spun_first : (spin [[1], [2]]).next (.new 1 1) = spun ⟨0, 1⟩ 2 := by
  rfl

theorem spun_last :
    ((spin [[1], [2]]).tick (spun ⟨1, 0xFFFFFFFF⟩ 0)).2.map (fun e => e.work.passIdx) = [1] := by
  decide +kernel

/-- Where nothing resolves there is nothing to supersede. -/
theorem retirePasses_of_vacant (hnone : ∀ k, s.work.get k = none) (x y : UInt8)
    (ps : List UInt8) : s.retirePasses x y ps = s := by
  induction ps with
  | nil => rfl
  | cons p ps ih =>
    have hstep : s.supersedeLiveHandle x y p = s := by
      unfold supersedeLiveHandle retire
      split
      · rfl
      · rw [hnone]
    show (s.supersedeLiveHandle x y p).retirePasses x y ps = s
    rw [hstep]
    exact ih

theorem spun_vacant (h : Handle) (v : UInt32) (k : Handle) : (spun h v).work.get k = none := by
  obtain ⟨i, u⟩ := k
  match i with
  | 0 => exact get_of_vacant (v := 2) rfl
  | 1 => exact get_of_vacant (v := v) rfl
  | i + 2 => rfl

/-- The pass 0 the tile is queued with. -/
def spinWork : TileWork := ⟨0, 0, 0, 0, 1, .cdf53, [1], 0, none, .pending⟩

/-- The slab with that pass stored. -/
def spunSlab (v : UInt32) : Slab TileWork :=
  ⟨[⟨2, none⟩, ⟨v + 1, some spinWork⟩], [0], by simp, by decide⟩

/-- The scheduler with the tile queued. -/
def spunQueued (v : UInt32) : Scheduler where
  cols := 1
  rows := 1
  work := spunSlab v
  priorityOrder := []
  buckets := ⟨[⟨1, v + 1⟩], some (0, 0), ⟨some 0, true⟩⟩ :: ⟨[], some (0, 0), {}⟩ ::
    List.replicate 12 {}
  pendingItems := 1
  refinementDeficit := ⟨1, [1], 1⟩
  retryAfter := fromMillis 40
  itemOverhead := 0
  slots := ⟨1, 1, [⟨0, none, 0, spunPasses ⟨1, v + 1⟩⟩], rfl⟩
  sized := rfl

theorem update_spunPasses (h k : Handle) :
    Function.update (spunPasses h) ⟨0, by decide⟩ (some k) = spunPasses k := by
  unfold spunPasses
  rw [Function.update_comm (by decide), Function.update_idem]

theorem spun_supersede (h : Handle) (v : UInt32) :
    (spun h v).supersedePendingForTile 0 0 = spun h v :=
  retirePasses_of_vacant (s := { spun h v with slots := (spun h v).slots.clearLabel 0 0 })
    (spun_vacant h v) 0 0 passIndices

theorem spun_refilled (h : Handle) (v : UInt32) :
    (spin [[1]]).refilled (spun h v) = spunQueued v := by
  have hsuper := spun_supersede h v
  have hfile : (spun h v).file spinWork = (spun h v).store spinWork := by
    rw [file_eq, retirePasses_of_vacant (spun_vacant h v)]
  show ((spun h v).supersedePendingForTile 0 0).fileRefinement spinWork = _
  rw [hsuper]
  unfold fileRefinement
  rw [hfile]
  have hslots : (spun h v).slots.setHandle 0 0 0 (some ⟨1, v + 1⟩) = (spunQueued v).slots := by
    have : (spun h v).slots.setHandle 0 0 0 (some ⟨1, v + 1⟩) =
      ⟨1, 1, [⟨0, none, 0, Function.update (spunPasses h) ⟨0, by decide⟩ (some ⟨1, v + 1⟩)⟩],
        rfl⟩ := rfl
    rw [this]
    simp only [update_spunPasses]
    rfl
  have hstore : (spun h v).store spinWork =
      ({ spun h v with work := spunSlab v, pendingItems := 1, slots := (spunQueued v).slots },
        ⟨1, v + 1⟩) := by
    rw [← hslots]
    rfl
  rw [hstore]
  rfl

theorem spun_next (h : Handle) (v : UInt32) :
    (spin [[1]]).next (spun h v) = spun ⟨1, v + 1⟩ (v + 1 + 1) := by
  have hget : (spunSlab v).get ⟨1, v + 1⟩ = some spinWork := get_eq_some_iff.2 rfl
  have hremove : (spunSlab v).remove ⟨1, v + 1⟩ = (spun ⟨1, v + 1⟩ (v + 1 + 1)).work := by
    unfold remove
    split
    · rename_i hnone
      rw [hget] at hnone
      cases hnone
    · rfl
  have htile : isOfTile (spunSlab v) (0, 0) ⟨1, v + 1⟩ = true := by
    rw [isOfTile, hget]
    rfl
  rw [Round.next, Round.tick, spun_refilled]
  have hpruned : (spunQueued v).pruneRefinement =
      { spunQueued v with
        buckets := ⟨[⟨1, v + 1⟩], some (0, 0), {}⟩ :: ⟨[], some (0, 0), {}⟩ :: replicate 12 {}
        sized := rfl } := by
    have hfirst : pruneBucket (some 0) 0 [⟨1, v + 1⟩] ⟨spunSlab v, ⟨1, [1], 1⟩, [], 0⟩ =
        ⟨spunSlab v, ⟨1, [1], 1⟩, [⟨1, v + 1⟩], 0⟩ := by
      simp only [pruneBucket, hget]
      rfl
    have hrot : rotateFresh ⟨[⟨1, v + 1⟩], some (0, 0), ⟨some 0, true⟩⟩
        ⟨spunSlab v, ⟨1, [1], 1⟩, [⟨1, v + 1⟩], 0⟩ = [⟨1, v + 1⟩] := by
      simp [rotateFresh, rotatePast, htile]
    have hbuckets : pruneBuckets (spunSlab v) ⟨1, [1], 1⟩ (spunQueued v).buckets =
        (spunSlab v, ⟨1, [1], 1⟩, ⟨[⟨1, v + 1⟩], some (0, 0), {}⟩ :: ⟨[], some (0, 0), {}⟩ ::
          replicate 12 {}) := by
      show pruneBuckets _ _ (_ :: _) = _
      rw [pruneBuckets]
      rw [hfirst, hrot]
      rfl
    unfold pruneRefinement
    simp only
    congr 1
    · exact congrArg Prod.fst hbuckets
    · exact congrArg (fun r => r.2.2) hbuckets
    · exact congrArg (fun r => r.2.1) hbuckets
  have hdrained : drainBucket ((spunQueued v).tickArgs 0 fun _ _ _ => false) 100 [⟨1, v + 1⟩]
      (some (0, 0)) ⟨spunSlab v, ⟨1, [1], 1⟩, 0, 0, []⟩ =
      ⟨⟨(spunSlab v).remove ⟨1, v + 1⟩, ⟨1, [0], 0⟩, 1, 1,
        [⟨⟨1, v + 1⟩, false, spinWork.sent 0⟩]⟩, [], some (0, 0), false⟩ := by
    simp only [drainBucket, hget]
    rfl
  have hall : drainBuckets ((spunQueued v).tickArgs 0 fun _ _ _ => false) 100
      (⟨[⟨1, v + 1⟩], some (0, 0), {}⟩ :: ⟨[], some (0, 0), {}⟩ :: replicate 12 {})
      ⟨spunSlab v, ⟨1, [1], 1⟩, 0, 0, []⟩ =
      (⟨(spunSlab v).remove ⟨1, v + 1⟩, ⟨1, [0], 0⟩, 1, 1,
        [⟨⟨1, v + 1⟩, false, spinWork.sent 0⟩]⟩,
        ⟨[], some (0, 0), {}⟩ :: ⟨[], some (0, 0), {}⟩ :: replicate 12 {}) := by
    rw [drainBuckets]
    rw [hdrained]
    rfl
  show ((spunQueued v).pruneRefinement.drainRefinement
    ((spunQueued v).tickArgs 0 fun _ _ _ => false) 100 []).1 = _
  rw [hpruned]
  unfold drainRefinement
  simp only
  congr 1
  · exact (congrArg (fun r => r.1.work) hall).trans hremove
  · exact congrArg Prod.snd hall
  · exact congrArg (fun r => 1 - r.1.leftPending) hall
  · exact congrArg (fun r => r.1.deficit) hall

/-- A round that queues pass 0 of the tile, on the grid, meets the conditions. -/
theorem spin_ok {passes : List Bytes}
    (hqueue : (SchedOp.enqueueRefinementAt 0 0 0 passes 0).QueuesTile (0, 0))
    (hgrid : (s.supersedePendingForTile 0 0).slots.InGrid 0 0)
    (hbudget : 0 < (((spin passes).refilled s).splitBudget 100 0).2) :
    Round.Ok [(0, 0)] s (spin passes) := by
  refine ⟨.supersede mem_cons_self rfl (.queue hqueue .done), ⟨nofun, ?_, trivial⟩, hbudget⟩
  intro w hw
  obtain ⟨htile, hpass⟩ := hqueue.ofTile w hw
  obtain ⟨hx, hy⟩ := Prod.mk.inj htile
  rw [hx, hy]
  exact ⟨hgrid, hpass⟩

theorem spun_ok (h : Handle) (v : UInt32) : Round.Ok [(0, 0)] (spun h v) (spin [[1]]) := by
  refine spin_ok ⟨rfl, by decide, by decide⟩ ?_ ?_
  · rw [spun_supersede]
    exact ⟨Nat.zero_lt_one, Nat.zero_lt_one⟩
  · rw [spun_refilled]
    exact (by decide : 0 < 100)

/-- The rounds of one pass only move the version of the cell. -/
theorem spun_run (k : ℕ) : ∀ (h : Handle) (v : UInt32),
    run next (spun h v) (List.replicate (k + 1) (spin [[1]])) =
      spun ⟨1, v + 1 + 2 * UInt32.ofNat k⟩ (v + 2 + 2 * UInt32.ofNat k) := by
  induction k with
  | zero =>
    intro h v
    rw [replicate_one, run_cons, spun_next, run_nil]
    simp [add_assoc]
  | succ k ih =>
    intro h v
    rw [replicate_succ, run_cons, spun_next, ih, ofNat_add]
    have hversion : v + 1 + 1 + 1 + 2 * ofNat k =
        v + 1 + 2 * (ofNat k + 1) := by grind
    have hcell : v + 1 + 1 + 2 + 2 * ofNat k =
        v + 2 + 2 * (ofNat k + 1) := by grind
    rw [hversion, hcell]
    rfl

theorem spun_along (k : ℕ) : ∀ (h : Handle) (v : UInt32),
    Along (Round.Ok [(0, 0)]) next (spun h v) (List.replicate k (spin [[1]])) := by
  induction k with
  | zero => exact fun _ _ => trivial
  | succ k ih =>
    intro h v
    refine ⟨spun_ok h v, ?_⟩
    rw [spun_next]
    exact ih _ _

/-- **A version that recurs costs a turn.** The tile is queued with two passes, then with one until
the version of the cell of the second has come around, then with two again. The slot of pass 1
still holds the handle of the first round, which by now is that of pass 0, just queued: filing pass
1 supersedes it, and the tick sends pass 1 alone. -/
theorem wrapped_version_loses_a_turn :
    ∃ before window : List Round, window.length = [((0 : UInt8), (0 : UInt8))].length ∧
      Along (Round.Ok [(0, 0)]) Round.next (.new 1 1) (before ++ window) ∧
      ∀ out ∈ Round.sends (run Round.next (.new 1 1) before) window, ∀ e ∈ out,
        e.work.passIdx ≠ 0 := by
  have hfirst : Round.Ok [(0, 0)] (.new 1 1) (spin [[1], [2]]) :=
    spin_ok ⟨rfl, by decide, by decide⟩ (by decide +kernel) (by decide +kernel)
  have hlast : Round.Ok [(0, 0)] (spun ⟨1, 0xFFFFFFFF⟩ 0) (spin [[1], [2]]) :=
    spin_ok ⟨rfl, by decide, by decide⟩ (by decide +kernel) (by decide +kernel)
  have hrun : ∀ k, ofNat k = 0x7FFFFFFE →
      run next (.new 1 1) (spin [[1], [2]] :: replicate (k + 1) (spin [[1]])) =
        spun ⟨1, 0xFFFFFFFF⟩ 0 := by
    intro k hk
    rw [run_cons, spun_first, spun_run, hk]
    rfl
  have hfinal := hrun 0x7FFFFFFE rfl
  refine ⟨spin [[1], [2]] :: replicate (0x7FFFFFFE + 1) (spin [[1]]), [spin [[1], [2]]], rfl,
    along_append.2 ⟨⟨hfirst, ?_⟩, ?_⟩, ?_⟩
  · rw [spun_first]
    exact spun_along _ _ _
  · rw [hfinal]
    exact ⟨hlast, trivial⟩
  · rw [hfinal]
    intro out hout e he
    rw [mem_singleton.1 hout] at he
    have hmem := mem_map_of_mem (f := fun e => e.work.passIdx) he
    rw [spun_last, mem_singleton] at hmem
    rw [hmem]
    decide

end Ghostframe.Transport
