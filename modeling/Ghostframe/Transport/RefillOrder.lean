import Ghostframe.Transport.SlotSound
import Ghostframe.Transport.TickOrder

/-!
# A screen queued again

A screen that keeps changing supersedes every queued pass of its tiles and enqueues
the tiles again, in the same order, before the next tick. This module follows what
that does to the bucket of pass 0.

* `Refills tiles todo ops`: operations that queue the tiles `todo` again, in order;
* `Filling`: the bucket of pass 0 in the middle of a refill, an old part in which only
  tiles still to be queued are unresolved, and a new part of the tiles already queued;
* `refill_filling`: after the refill the old part is resolved and the new part is the
  tiles, in their order.
-/

namespace Ghostframe.Transport

open Scheduler List Option TileWork

/-! ### Refills -/

namespace SchedOp

/-- The tile an operation supersedes. -/
def supersedes : SchedOp → Option (UInt8 × UInt8)
  | supersedePendingForTile x y => some (x, y)
  | bumpGeneration x y => some (x, y)
  | bumpGenerationCollecting x y => some (x, y)
  | _ => none

/-- The operation queues refinement work. -/
def isRefinement : SchedOp → Bool
  | enqueueRefinementWorkAt _ _ => true
  | enqueueRefinementAt _ _ _ _ _ => true
  | enqueueRefinementSubsetAt _ _ _ _ _ _ => true
  | _ => false

/-- The operation queues refinement work of the tile, with pass 0 once. -/
structure QueuesTile (op : SchedOp) (t : UInt8 × UInt8) : Prop where
  refinement : op.isRefinement = true
  ofTile : ∀ w ∈ op.items, w.tile = t ∧ w.passIdx.toNat < passSlots
  passZero : (op.items.filter fun w => w.passIdx = 0).length = 1

/-- The operation leaves the refinement work of the tiles alone. -/
def Aside (tiles : List (UInt8 × UInt8)) : SchedOp → Prop
  | enqueueAt w _ => w.tile ∉ tiles
  | supersedePendingForTile x y => (x, y) ∉ tiles
  | bumpGeneration x y => (x, y) ∉ tiles
  | bumpGenerationCollecting x y => (x, y) ∉ tiles
  | markAcked _ _ _ _ => True
  | recordCdf53Ack _ _ _ _ => True
  | frameLabel _ _ _ => True
  | setRetryAfter _ => True
  | setItemOverhead _ => True
  | _ => False

end SchedOp

/-- The operations queue the tiles `todo` again, in this order. A tile may be superseded until it
is queued; queueing it supersedes what it replaces in any case. -/
inductive Refills (tiles : List (UInt8 × UInt8)) : List (UInt8 × UInt8) → List SchedOp → Prop
  | done : Refills tiles [] []
  | aside {todo : List (UInt8 × UInt8)} {op : SchedOp} {ops : List SchedOp}
      (hop : op.Aside tiles) (hrest : Refills tiles todo ops) : Refills tiles todo (op :: ops)
  | supersede {todo : List (UInt8 × UInt8)} {t : UInt8 × UInt8} {op : SchedOp} {ops : List SchedOp}
      (ht : t ∈ todo) (hop : op.supersedes = some t) (hrest : Refills tiles todo ops) :
      Refills tiles todo (op :: ops)
  | queue {todo : List (UInt8 × UInt8)} {t : UInt8 × UInt8} {op : SchedOp} {ops : List SchedOp}
      (hop : op.QueuesTile t) (hrest : Refills tiles todo ops) :
      Refills tiles (t :: todo) (op :: ops)

/-! ### What holds in every state -/

/-- The new run of a bucket begins inside it. -/
def Bucket.FreshWithin (b : Bucket) : Prop := ∀ f, b.fresh.start = some f → f ≤ b.order.length

/-- What holds after `n` items were filed, on the grid. -/
structure Scheduler.Steady (s : Scheduler) (n : ℕ) : Prop where
  tracked : ∃ g fired, Tracked g s fired
  ordered : s.Ordered
  sound : s.Sound n
  fresh : ∀ b ∈ s.buckets, b.FreshWithin

theorem Bucket.FreshWithin.push {b : Bucket} (hb : b.FreshWithin) (h : Handle)
    (tile : UInt8 × UInt8) : (b.push h tile).FreshWithin := by
  intro f hf
  simp only [Bucket.push, Option.some.injEq] at hf
  simp only [Bucket.push, length_append, length_singleton]
  cases hs : b.fresh.start with
  | none =>
    rw [hs, getD_none] at hf
    omega
  | some f' =>
    rw [hs, getD_some] at hf
    have := hb f' hs
    omega

/-- Pruning and draining leave every new run empty. -/
theorem fresh_pruneBuckets (bs : List Bucket) :
    ∀ (work : Slab TileWork) (deficit : RefinementDeficit),
      ∀ b ∈ (pruneBuckets work deficit bs).2.2, b.fresh = {} := by
  induction bs with
  | nil => exact nofun
  | cons b bs ih =>
    intro work deficit b' hb'
    rcases mem_cons.1 hb' with rfl | hb'
    · rfl
    · exact ih _ _ b' hb'

theorem fresh_drainBuckets (args : TickArgs) (budget : ℕ) (bs : List Bucket) :
    ∀ d : RefinementDrain, (∀ b ∈ bs, b.fresh = {}) →
      ∀ b ∈ (drainBuckets args budget bs d).2, b.fresh = {} := by
  induction bs with
  | nil => exact fun _ _ => nofun
  | cons b bs ih =>
    intro d hbs b' hb'
    have hrest : ∀ b ∈ bs, b.fresh = {} := fun c hc => hbs c (mem_cons_of_mem _ hc)
    simp only [drainBuckets] at hb'
    split at hb'
    · rcases mem_cons.1 hb' with rfl | hb'
      · exact hbs b mem_cons_self
      · exact hrest b' hb'
    · rcases mem_cons.1 hb' with rfl | hb'
      · exact hbs b mem_cons_self
      · exact ih _ hrest b' hb'

namespace Scheduler

variable {s : Scheduler} {n : ℕ}

theorem fresh_tick (s : Scheduler) (budget share : ℕ) (now : Instant)
    (recoveryOwned : UInt8 → UInt8 → UInt8 → Bool) :
    ∀ b ∈ (s.tickAtWith budget share now recoveryOwned).1.buckets, b.fresh = {} :=
  fresh_drainBuckets _ _ _ _ (fresh_pruneBuckets _ _ _)

theorem buckets_retirePasses (s : Scheduler) (x y : UInt8) (ps : List UInt8) :
    (s.retirePasses x y ps).buckets = s.buckets := by
  obtain ⟨work, k, he⟩ := retirePasses_eq s x y ps
  rw [he]

theorem buckets_supersede (s : Scheduler) (x y : UInt8) :
    (s.supersedePendingForTile x y).buckets = s.buckets :=
  buckets_retirePasses { s with slots := s.slots.clearLabel x y } x y passIndices

theorem buckets_bumpGeneration (s : Scheduler) (x y : UInt8) :
    (s.bumpGeneration x y).1.buckets = s.buckets := by
  simp only [bumpGeneration]
  exact buckets_supersede s x y

theorem buckets_bumpGenerationCollecting (s : Scheduler) (x y : UInt8) :
    (s.bumpGenerationCollecting x y).1.buckets = s.buckets := by
  simp only [bumpGenerationCollecting, collect_fst]
  exact buckets_retirePasses s x y passIndices

theorem buckets_markAcked (s : Scheduler) (x y gen p : UInt8) :
    (s.markAcked x y gen p).buckets = s.buckets := by
  unfold markAcked
  split <;> rfl

theorem buckets_enqueueAt (s : Scheduler) (w : TileWork) (now : Instant) :
    (s.enqueueAt w now).buckets = s.buckets :=
  buckets_retirePasses s w.tileX w.tileY [w.passIdx]

theorem buckets_fileRefinement (s : Scheduler) (w : TileWork) :
    (s.fileRefinement w).buckets =
      s.buckets.modify (bucketOf w.passIdx) fun b => b.push (s.file w).2 w.tile := by
  show ((s.retirePasses w.tileX w.tileY [w.passIdx]).buckets.modify _ _) = _
  rw [buckets_retirePasses]
  rfl

theorem fresh_fileAll (ws : List TileWork) (hb : ∀ b ∈ s.buckets, b.FreshWithin) :
    ∀ b ∈ (ws.foldl fileRefinement s).buckets, b.FreshWithin := by
  induction ws generalizing s with
  | nil => exact hb
  | cons w ws ih =>
    refine ih ?_
    rw [buckets_fileRefinement]
    intro b' hb'
    obtain ⟨i, hi⟩ := mem_iff_getElem?.1 hb'
    rw [getElem?_modify] at hi
    obtain ⟨b, hbi, rfl⟩ := map_eq_some_iff.1 hi
    have hmem := hb b (mem_of_getElem? hbi)
    split
    · exact hmem.push _ _
    · exact hmem

theorem fresh_empty : ∀ b ∈ List.replicate passSlots ({} : Bucket), b.FreshWithin := by
  intro b hmem f hf
  rw [eq_of_mem_replicate hmem] at hf
  cases hf

/-- The buckets after an operation. -/
theorem fresh_apply (op : SchedOp) (hb : ∀ b ∈ s.buckets, b.FreshWithin) :
    ∀ b ∈ (op.apply s).buckets, b.FreshWithin := by
  cases op with
  | enqueueAt w now =>
    rw [SchedOp.apply, buckets_enqueueAt]
    exact hb
  | enqueueRefinementWorkAt w now => exact fresh_fileAll [w.queued now] hb
  | enqueueRefinementAt | enqueueRefinementSubsetAt => exact fresh_fileAll _ hb
  | supersedePendingForTile x y =>
    rw [SchedOp.apply, buckets_supersede]
    exact hb
  | bumpGeneration x y =>
    rw [SchedOp.apply, buckets_bumpGeneration]
    exact hb
  | bumpGenerationCollecting x y =>
    rw [SchedOp.apply, buckets_bumpGenerationCollecting]
    exact hb
  | markAcked x y gen p =>
    rw [SchedOp.apply, buckets_markAcked]
    exact hb
  | recordCdf53Ack | frameLabel | setRetryAfter | setItemOverhead => exact hb
  | tickAtWith budget share now owned =>
    intro b hmem f hf
    rw [fresh_tick s budget share now owned b hmem] at hf
    cases hf
  | clear | resize => exact fresh_empty

/-- **Every operation on the grid keeps the scheduler steady.** -/
theorem apply_steady (op : SchedOp) (hop : op.WithinGrid s) (hn : n + op.items.length < 2 ^ 31)
    (hs : s.Steady n) : (op.apply s).Steady (n + op.items.length) := by
  obtain ⟨g, fired, ht⟩ := hs.tracked
  exact ⟨⟨_, _, (Watch.apply_tracked op hop ht).1⟩, apply_ordered s op hs.ordered,
    apply_sound op hop hn hs.sound, fresh_apply op hs.fresh⟩

theorem new_steady (cols rows : ℕ) : (new cols rows).Steady 0 where
  tracked := (new_inOrder cols rows).1
  ordered := run_ordered cols rows []
  sound := SlotsSound.empty (Slab.aged_new 0) (SlotMap.handle_new cols rows)
  fresh := fresh_empty

end Scheduler

/-- **Filing refinement work on the grid keeps the scheduler steady.** -/
theorem Scheduler.fileRefinement_steady {s : Scheduler} {n : ℕ} {w : TileWork} (hs : s.Steady n)
    (hst : w.state = .pending) (hgrid : s.slots.InGrid w.tileX w.tileY)
    (hpass : w.passIdx.toNat < passSlots) (hn : n < 2 ^ 31) :
    (s.fileRefinement w).Steady (n + 1) := by
  obtain ⟨g, fired, ht⟩ := hs.tracked
  exact ⟨⟨_, _, fileRefinement_tracked hst ht hgrid hpass⟩, fileRefinement_ordered hst hs.ordered,
    file_sound hs.sound hn hgrid hpass, fresh_fileAll [w] hs.fresh⟩

/-! ### What a refill does to the items -/

namespace Scheduler

/-- The bucket of pass 0. -/
def front (s : Scheduler) : Bucket := s.buckets.headD {}

variable {s s' : Scheduler} {n : ℕ} {h k : Handle}

theorem buckets_eq_cons (s : Scheduler) : ∃ bs, s.buckets = s.front :: bs := by
  have hlen := s.sized
  unfold front
  cases hb : s.buckets with
  | nil =>
    rw [hb] at hlen
    cases hlen
  | cons b bs => exact ⟨bs, rfl⟩

theorem mem_refinementHandles_of_front (hh : h ∈ s.front.order) : h ∈ s.refinementHandles := by
  obtain ⟨bs, hb⟩ := buckets_eq_cons s
  unfold refinementHandles
  rw [hb, flatMap_cons]
  exact mem_append_left _ hh

/-- Only pass 0 is queued in the bucket of pass 0. -/
theorem bucketOf_eq_zero {p : UInt8} : bucketOf p = 0 ↔ p = 0 := by
  constructor
  · intro hp
    have hz : p.toNat = 0 := by
      unfold bucketOf passSlots at hp
      omega
    exact UInt8.toNat_inj.1 hz
  · rintro rfl
    rfl

theorem front_passIdx (ho : s.Ordered) (hh : h ∈ s.front.order) {w : TileWork}
    (hw : s.work.get h = some w) : w.passIdx = 0 := by
  obtain ⟨bs, hb⟩ := buckets_eq_cons s
  have hplaced := ho.placed
  rw [hb] at hplaced
  exact bucketOf_eq_zero.1 (hplaced.1 h hh w hw)

/-- What a supersession does to the items and to the buckets. -/
theorem supersedes_effect {op : SchedOp} {x y : UInt8} (hop : op.supersedes = some (x, y)) :
    (op.apply s).buckets = s.buckets ∧ ∀ k, (op.apply s).work.get k =
      if ∃ p ∈ passIndices, s.slots.handle x y p = some k then
        (s.work.get k).map supersede
      else s.work.get k := by
  have hget : ∀ k, (s.supersedePendingForTile x y).work.get k =
      if ∃ p ∈ passIndices, s.slots.handle x y p = some k then
        (s.work.get k).map supersede
      else s.work.get k := by
    intro k
    have := get_retirePasses { s with slots := s.slots.clearLabel x y } x y passIndices k
    simp only [SlotMap.handle_clearLabel] at this
    exact this
  cases op with
  | supersedePendingForTile x' y' =>
    obtain ⟨rfl, rfl⟩ := Prod.mk.inj (some.inj hop)
    exact ⟨buckets_supersede s x' y', hget⟩
  | bumpGeneration x' y' =>
    obtain ⟨rfl, rfl⟩ := Prod.mk.inj (some.inj hop)
    refine ⟨buckets_bumpGeneration s x' y', fun k => ?_⟩
    simp only [SchedOp.apply, bumpGeneration]
    exact hget k
  | bumpGenerationCollecting x' y' =>
    obtain ⟨rfl, rfl⟩ := Prod.mk.inj (some.inj hop)
    refine ⟨buckets_bumpGenerationCollecting s x' y', fun k => ?_⟩
    simp only [SchedOp.apply, bumpGenerationCollecting, collect_fst]
    exact get_retirePasses s x' y' passIndices k
  | _ => cases hop

/-- What filing an item does to the others. -/
theorem get_file (s : Scheduler) (w : TileWork) (k : Handle) :
    (s.file w).1.work.get k =
      if k = (s.file w).2 then some w
      else if s.slots.handle w.tileX w.tileY w.passIdx = some k then
        (s.work.get k).map supersede
      else s.work.get k := by
  have hins := Slab.get_insert (s.retirePasses w.tileX w.tileY [w.passIdx]).work w k
  rw [get_retirePasses] at hins
  simp only [mem_singleton, exists_eq_left] at hins
  exact hins

/-- The handle filing returns is queued nowhere. -/
theorem file_not_mem (ho : s.Ordered) (w : TileWork) : (s.file w).2 ∉ s.refinementHandles := by
  have hq := retirePasses_queues w.tileX w.tileY [w.passIdx] ho.queues
  have hnot := hq.not_mem (Slab.get_insert_fresh _ w)
  have hrefi : (s.retirePasses w.tileX w.tileY [w.passIdx]).refinementHandles =
      s.refinementHandles := by
    unfold refinementHandles
    rw [buckets_retirePasses]
  rw [hrefi] at hnot
  exact fun hmem => hnot (mem_append_right _ hmem)

theorem front_fileRefinement (s : Scheduler) (w : TileWork) :
    (s.fileRefinement w).front =
      if w.passIdx = 0 then s.front.push (s.file w).2 w.tile else s.front := by
  obtain ⟨bs, hb⟩ := buckets_eq_cons s
  rw [front, buckets_fileRefinement, hb]
  by_cases hp : w.passIdx = 0
  · rw [if_pos hp, hp]
    rfl
  · rw [if_neg hp]
    obtain ⟨j, hj⟩ := Nat.exists_eq_succ_of_ne_zero (fun hz => hp (bucketOf_eq_zero.1 hz))
    rw [hj, Nat.succ_eq_add_one, modify_succ_cons]
    rfl

end Scheduler

/-! ### The bucket of pass 0 during a refill -/

/-- The handle is of pending pass-0 work of the tile. -/
def QueuedZero (work : Slab TileWork) (t : UInt8 × UInt8) (h : Handle) : Prop :=
  ∃ w, work.get h = some w ∧ w.state = .pending ∧ w.tile = t ∧ w.passIdx = 0

theorem queuedZero_congr {work work' : Slab TileWork} {ts : List (UInt8 × UInt8)}
    {hs : List Handle} (hq : List.Forall₂ (QueuedZero work) ts hs)
    (hsame : ∀ h ∈ hs, work'.get h = work.get h) : List.Forall₂ (QueuedZero work') ts hs := by
  induction hq with
  | nil => exact .nil
  | @cons t h ts hs hd _ ih =>
    obtain ⟨w, hw, hrest⟩ := hd
    refine .cons ⟨w, (hsame h mem_cons_self).trans hw, hrest⟩ (ih ?_)
    exact fun k hk => hsame k (mem_cons_of_mem _ hk)

/-- The bucket of pass 0 in the middle of a refill: `done` is queued again as `fresh`, and of the
entries from before, `old`, only those of `todo` may be unresolved. -/
structure Filling (cursor : Option (UInt8 × UInt8)) (done todo : List (UInt8 × UInt8))
    (s : Scheduler) (old fresh : List Handle) : Prop where
  order : s.front.order = old ++ fresh
  queued : List.Forall₂ (QueuedZero s.work) done fresh
  stale : ∀ h ∈ old, ∀ w, s.work.get h = some w → w.Active → w.tile ∈ todo
  start : ∀ f, s.front.fresh.start = some f → f ≤ old.length
  started : done ≠ [] → s.front.fresh.start ≠ none
  pushed : ∀ c ∈ done, s.front.cursor = some c → s.front.fresh.cursorPushed = true
  cursor : s.front.cursor = cursor

namespace Filling

variable {cursor : Option (UInt8 × UInt8)} {done todo tiles : List (UInt8 × UInt8)}
  {t : UInt8 × UInt8} {s s' : Scheduler} {old fresh : List Handle} {n : ℕ}

/-- An entry of the new part is of one of the tiles already queued. -/
theorem tile_mem_done (hf : Filling cursor done todo s old fresh) {h : Handle} (hh : h ∈ fresh) :
    ∃ w, s.work.get h = some w ∧ w.state = .pending ∧ w.tile ∈ done ∧ w.passIdx = 0 := by
  have hall : ∀ {ds : List (UInt8 × UInt8)} {hs : List Handle},
      List.Forall₂ (QueuedZero s.work) ds hs → h ∈ hs →
      ∃ w, s.work.get h = some w ∧ w.state = .pending ∧ w.tile ∈ ds ∧ w.passIdx = 0 := by
    intro ds hs hq
    induction hq with
    | nil => exact nofun
    | cons hd _ ih =>
      intro hmem
      rcases mem_cons.1 hmem with rfl | hmem
      · obtain ⟨w, hw, hst, rfl, hp⟩ := hd
        exact ⟨w, hw, hst, mem_cons_self, hp⟩
      · obtain ⟨w, hw, hst, htile, hp⟩ := ih hmem
        exact ⟨w, hw, hst, mem_cons_of_mem _ htile, hp⟩
  exact hall hf.queued hh

/-- A step that leaves the bucket, the new part, and resolves only in the old part. -/
theorem quiet (hf : Filling cursor done todo s old fresh) (hfront : s'.front = s.front)
    (hfresh : ∀ h ∈ fresh, s'.work.get h = s.work.get h)
    (hold : ∀ h ∈ old, ∀ w, s'.work.get h = some w → w.Active → s.work.get h = some w) :
    Filling cursor done todo s' old fresh := by
  refine ⟨?_, ?_, ?_, ?_, ?_, ?_, ?_⟩
  · rw [hfront, hf.order]
  · exact queuedZero_congr hf.queued hfresh
  · intro h hh w hw ha
    exact hf.stale h hh w (hold h hh w hw ha) ha
  · rw [hfront]
    exact hf.start
  · rw [hfront]
    exact hf.started
  · rw [hfront]
    exact hf.pushed
  · rw [hfront]
    exact hf.cursor

/-- Superseding work of other tile passes is such a step. -/
theorem retireOthers (hf : Filling cursor done todo s old fresh) (hs : s.Sound n)
    (hfront : s'.front = s.front) (retired : Handle → Prop) [DecidablePred retired]
    (hget : ∀ h ∈ s.front.order, s'.work.get h =
      if retired h then (s.work.get h).map supersede else s.work.get h)
    (hother : ∀ h, retired h → ∃ x y p, s.slots.handle x y p = some h ∧
      ((x, y) ∉ done ∨ p ≠ 0)) :
    Filling cursor done todo s' old fresh := by
  refine hf.quiet hfront ?_ ?_
  · intro h hh
    have hmem : h ∈ s.front.order := hf.order ▸ mem_append_right _ hh
    rw [hget h hmem, if_neg]
    intro hret
    obtain ⟨x, y, p, hslot, hne⟩ := hother h hret
    obtain ⟨w, hw, -, htile, hpass⟩ := hf.tile_mem_done hh
    -- the slot leads to work of its own tile pass
    have hkey := hs.own x y p h w hslot hw
    obtain ⟨rfl, rfl, rfl⟩ : w.tileX = x ∧ w.tileY = y ∧ w.passIdx = p := by
      simpa [key] using hkey
    rcases hne with hne | hne
    · exact hne htile
    · exact hne hpass
  · intro h hh w' hw' ha
    have hmem : h ∈ s.front.order := hf.order ▸ mem_append_left _ hh
    rw [hget h hmem] at hw'
    split at hw'
    · obtain ⟨w, -, rfl⟩ := map_eq_some_iff.1 hw'
      exact absurd ha w.supersede_not_active
    · exact hw'

/-- **A supersession of a tile not yet queued again.** -/
theorem supersede (hf : Filling cursor done todo s old fresh) (hs : s.Sound n) {op : SchedOp}
    (hop : op.supersedes = some t) (ht : t ∉ done) :
    Filling cursor done todo (op.apply s) old fresh := by
  classical
  obtain ⟨hbuckets, hget⟩ := supersedes_effect (s := s) (x := t.1) (y := t.2) hop
  refine hf.retireOthers hs ?_ (fun h => ∃ p ∈ passIndices, s.slots.handle t.1 t.2 p = some h)
    ?_ ?_
  · unfold front
    rw [hbuckets]
  · intro h _
    rw [hget h]
  · rintro h ⟨p, -, hslot⟩
    exact ⟨t.1, t.2, p, hslot, .inl ht⟩

/-- Filing work of a pass other than 0. -/
theorem fileOther (hf : Filling cursor done todo s old fresh) (hs : s.Steady n) {w : TileWork}
    (hp : w.passIdx ≠ 0) : Filling cursor done todo (s.fileRefinement w) old fresh := by
  refine hf.retireOthers hs.sound ?_
    (fun h => s.slots.handle w.tileX w.tileY w.passIdx = some h) ?_ ?_
  · rw [front_fileRefinement, if_neg hp]
  · intro h hh
    have hne : h ≠ (s.file w).2 := by
      rintro rfl
      exact file_not_mem hs.ordered w (mem_refinementHandles_of_front hh)
    show (s.file w).1.work.get h = _
    rw [get_file, if_neg hne]
  · intro h hslot
    exact ⟨w.tileX, w.tileY, w.passIdx, hslot, .inr hp⟩

/-- **Filing pass 0 of the next tile.** -/
theorem fileZero (hf : Filling cursor done (t :: todo) s old fresh) (hs : s.Steady n)
    (ht : t ∉ done) {w : TileWork} (hst : w.state = .pending) (htile : w.tile = t)
    (hp : w.passIdx = 0) :
    Filling cursor (done ++ [t]) todo (s.fileRefinement w) old (fresh ++ [(s.file w).2]) := by
  obtain ⟨g, fired, htracked⟩ := hs.tracked
  have hfront : (s.fileRefinement w).front = s.front.push (s.file w).2 w.tile := by
    rw [front_fileRefinement, if_pos hp]
  have hget : ∀ k, (s.fileRefinement w).work.get k =
      if k = (s.file w).2 then some w
      else if s.slots.handle w.tileX w.tileY w.passIdx = some k then
        (s.work.get k).map TileWork.supersede
      else s.work.get k := get_file s w
  have hne : ∀ h ∈ s.front.order, h ≠ (s.file w).2 := by
    rintro h hh rfl
    exact file_not_mem hs.ordered w (mem_refinementHandles_of_front hh)
  have hlen : done.length = fresh.length := hf.queued.length_eq
  refine ⟨?_, ?_, ?_, ?_, ?_, ?_, ?_⟩
  · rw [hfront, Bucket.push, hf.order, append_assoc]
  · refine rel_append (queuedZero_congr hf.queued ?_) (.cons ⟨w, ?_, hst, htile, hp⟩ .nil)
    · intro h hh
      have hmem : h ∈ s.front.order := hf.order ▸ mem_append_right _ hh
      rw [hget, if_neg (hne h hmem), if_neg]
      intro hslot
      obtain ⟨v, hv, -, hdone, -⟩ := hf.tile_mem_done hh
      have hkey := hs.sound.own _ _ _ h v hslot hv
      have hsame : v.tile = w.tile := by
        rw [tile, tile]
        simp only [TileWork.key, Prod.mk.injEq] at hkey
        rw [hkey.1, hkey.2.1]
      exact ht (htile ▸ hsame ▸ hdone)
    · rw [hget, if_pos rfl]
  · intro h hh v hv ha
    have hmem : h ∈ s.front.order := hf.order ▸ mem_append_left _ hh
    rw [hget, if_neg (hne h hmem)] at hv
    split at hv
    · obtain ⟨v', -, rfl⟩ := map_eq_some_iff.1 hv
      exact absurd ha v'.supersede_not_active
    · rename_i hslot
      refine (mem_cons.1 (hf.stale h hh v hv ha)).resolve_left ?_
      -- unresolved work of this tile would be what its slot holds
      intro hvt
      have hheld := htracked.items.held h v hv ha
      have hvp := front_passIdx hs.ordered hmem hv
      have hvw : v.tile = w.tile := hvt.trans htile.symm
      simp only [tile, Prod.mk.injEq] at hvw
      rw [hvw.1, hvw.2, hvp, ← hp] at hheld
      exact hslot hheld
  · intro f hstart
    rw [hfront] at hstart
    simp only [Bucket.push, Option.some.injEq] at hstart
    cases hprev : s.front.fresh.start with
    | none =>
      have hnil : done = [] := by
        by_contra hd
        exact hf.started hd hprev
      have hfresh : fresh = [] := by
        rw [hnil] at hlen
        exact length_eq_zero_iff.1 hlen.symm
      rw [hprev, getD_none, hf.order, hfresh, append_nil] at hstart
      omega
    | some f' =>
      rw [hprev, getD_some] at hstart
      exact hstart ▸ hf.start f' hprev
  · intro _
    rw [hfront]
    exact some_ne_none _
  · intro c hc hcur
    rw [hfront] at hcur ⊢
    simp only [Bucket.push, Bool.or_eq_true, decide_eq_true_eq] at hcur ⊢
    rcases mem_append.1 hc with hc | hc
    · exact .inl (hf.pushed c hc hcur)
    · rw [mem_singleton.1 hc] at hcur
      rw [hcur, htile]
      exact .inr rfl
  · rw [hfront]
    exact hf.cursor

/-- Filing a list of work of passes other than 0. -/
theorem fileOthers (ws : List TileWork) (hf : Filling cursor done todo s old fresh)
    (hs : s.Steady n) (hp : ∀ w ∈ ws, w.passIdx ≠ 0) (hst : ∀ w ∈ ws, w.state = .pending)
    (hin : ∀ w ∈ ws, s.slots.InGrid w.tileX w.tileY ∧ w.passIdx.toNat < passSlots)
    (hn : n + ws.length < 2 ^ 31) :
    Filling cursor done todo (ws.foldl fileRefinement s) old fresh := by
  induction ws generalizing s n with
  | nil => exact hf
  | cons w ws ih =>
    rw [length_cons] at hn
    obtain ⟨hgrid, hpass⟩ := hin w mem_cons_self
    exact ih (hf.fileOther hs (hp w mem_cons_self))
      (fileRefinement_steady hs (hst w mem_cons_self) hgrid hpass (by omega))
      (fun v hv => hp v (mem_cons_of_mem _ hv)) (fun v hv => hst v (mem_cons_of_mem _ hv))
      (inGrid_rest hin) (by omega)

/-- **Filing the work of the next tile, with pass 0 once.** -/
theorem fileTile (ws : List TileWork) (hf : Filling cursor done (t :: todo) s old fresh)
    (hs : s.Steady n) (ht : t ∉ done) (htile : ∀ w ∈ ws, w.tile = t)
    (hone : (ws.filter fun w => w.passIdx = 0).length = 1) (hst : ∀ w ∈ ws, w.state = .pending)
    (hin : ∀ w ∈ ws, s.slots.InGrid w.tileX w.tileY ∧ w.passIdx.toNat < passSlots)
    (hn : n + ws.length < 2 ^ 31) :
    ∃ h, Filling cursor (done ++ [t]) todo (ws.foldl fileRefinement s) old (fresh ++ [h]) := by
  induction ws generalizing s n with
  | nil => simp at hone
  | cons w ws ih =>
    rw [length_cons] at hn
    obtain ⟨hgrid, hpass⟩ := hin w mem_cons_self
    have hw := hst w mem_cons_self
    have hst' : ∀ v ∈ ws, v.state = .pending := fun v hv => hst v (mem_cons_of_mem _ hv)
    have hsteady := fileRefinement_steady hs hw hgrid hpass (by omega)
    by_cases hp : w.passIdx = 0
    · have hnone : ∀ v ∈ ws, v.passIdx ≠ 0 := by
        rw [filter_cons_of_pos (by simpa using hp), length_cons] at hone
        have hnil : ws.filter (fun v => v.passIdx = 0) = [] :=
          length_eq_zero_iff.1 (by omega)
        intro v hv hz
        have hmem : v ∈ ws.filter fun v => v.passIdx = 0 :=
          mem_filter.2 ⟨hv, by simpa using hz⟩
        rw [hnil] at hmem
        cases hmem
      exact ⟨_, (hf.fileZero hs ht hw (htile w mem_cons_self) hp).fileOthers ws hsteady hnone
        hst' (inGrid_rest hin) (by omega)⟩
    · rw [filter_cons_of_neg (by simpa using hp)] at hone
      exact ih (hf.fileOther hs hp) hsteady (fun v hv => htile v (mem_cons_of_mem _ hv)) hone
        hst' (inGrid_rest hin) (by omega)

/-- **An operation beside the refill.** -/
theorem aside (hf : Filling cursor done todo s old fresh) (hs : s.Steady n) {op : SchedOp}
    (hop : op.Aside tiles) (hsub : done ⊆ tiles) :
    Filling cursor done todo (op.apply s) old fresh := by
  cases op with
  | enqueueAt w now =>
    refine hf.retireOthers hs.sound ?_
      (fun h => s.slots.handle w.tileX w.tileY w.passIdx = some h) ?_ ?_
    · unfold front
      rw [SchedOp.apply, buckets_enqueueAt]
    · intro h hh
      have hne : h ≠ (s.file (w.queued now)).2 := by
        rintro rfl
        exact file_not_mem hs.ordered _ (mem_refinementHandles_of_front hh)
      show (s.file (w.queued now)).1.work.get h = _
      rw [get_file, if_neg hne]
      rfl
    · intro h hslot
      exact ⟨_, _, _, hslot, .inl fun hd => hop (hsub hd)⟩
  | supersedePendingForTile x y | bumpGeneration x y | bumpGenerationCollecting x y =>
    exact hf.supersede hs.sound (t := (x, y)) rfl fun hd => hop (hsub hd)
  | markAcked x y gen p =>
    refine hf.quiet ?_ ?_ ?_
    · unfold front
      rw [SchedOp.apply, buckets_markAcked]
    · intro h hh
      -- what is queued is pending, and an acknowledgement resolves what is in flight
      obtain ⟨w, hw, hst, -⟩ := hf.tile_mem_done hh
      show (s.markAcked x y gen p).work.get h = _
      unfold markAcked
      split
      · rfl
      · simp only [Slab.get_modify]
        split
        · rename_i hk
          rw [← hk, hw]
          simp [hst]
        · rfl
    · intro h _ w' hw' ha
      obtain ⟨w, hw, -, hsame⟩ := weakens_markAcked s x y gen p h w' hw'
      rw [hsame ha]
      exact hw
  | recordCdf53Ack | frameLabel | setRetryAfter | setItemOverhead =>
    exact hf.quiet rfl (fun _ _ => rfl) fun _ _ _ hw _ => hw
  | _ => exact hop.elim

end Filling

/-- The number of items a list of operations files. -/
def filedBy (ops : List SchedOp) : ℕ := (ops.flatMap SchedOp.items).length

theorem filedBy_cons (op : SchedOp) (ops : List SchedOp) :
    filedBy (op :: ops) = op.items.length + filedBy ops := by
  simp [filedBy]

theorem SchedOp.items_pending (op : SchedOp) : ∀ w ∈ op.items, w.state = .pending := by
  intro w hw
  cases op with
  | enqueueAt | enqueueRefinementWorkAt => rw [mem_singleton.1 hw]; rfl
  | enqueueRefinementAt x y gen passes now => exact Watch.refinementItems_pending hw
  | enqueueRefinementSubsetAt x y gen mask payloads now => exact Watch.subsetItems_pending hw
  | _ => cases hw

theorem SchedOp.apply_refinement {op : SchedOp} (hop : op.isRefinement = true) (s : Scheduler) :
    op.apply s = op.items.foldl fileRefinement s := by
  cases op with
  | enqueueRefinementWorkAt | enqueueRefinementAt | enqueueRefinementSubsetAt => rfl
  | _ => cases hop

/-- A run on the grid stays steady. -/
theorem run_steady {s : Scheduler} {n : ℕ} (ops : List SchedOp) (hs : s.Steady n)
    (hgrid : Along SchedOp.WithinGrid SchedOp.apply s ops) (hn : n + filedBy ops < 2 ^ 31) :
    (run SchedOp.apply s ops).Steady (n + filedBy ops) := by
  induction ops generalizing s n with
  | nil => exact hs
  | cons op ops ih =>
    rw [filedBy_cons] at hn ⊢
    rw [run_cons, ← Nat.add_assoc]
    exact ih (apply_steady op hgrid.1 (by omega) hs) hgrid.2 (by omega)

/-- **After a refill the old part is resolved, and the new part is the tiles in their order.** -/
theorem refill_filling {cursor : Option (UInt8 × UInt8)} {tiles : List (UInt8 × UInt8)}
    (hnodup : tiles.Nodup) {todo : List (UInt8 × UInt8)} {ops : List SchedOp}
    (hr : Refills tiles todo ops) :
    ∀ {done : List (UInt8 × UInt8)} {s : Scheduler} {old fresh : List Handle} {n : ℕ},
      done ++ todo = tiles → s.Steady n → Filling cursor done todo s old fresh →
      Along SchedOp.WithinGrid SchedOp.apply s ops → n + filedBy ops < 2 ^ 31 →
      ∃ fresh', Filling cursor tiles [] (run SchedOp.apply s ops) old fresh' := by
  induction hr with
  | done =>
    intro done s old fresh n htiles _ hf _ _
    rw [append_nil] at htiles
    exact ⟨fresh, htiles ▸ hf⟩
  | @aside todo op ops hop _ ih =>
    intro done s old fresh n htiles hs hf hgrid hn
    rw [filedBy_cons] at hn
    have hsub : done ⊆ tiles := htiles ▸ subset_append_left done todo
    exact ih htiles (apply_steady op hgrid.1 (by omega) hs) (hf.aside hs hop hsub) hgrid.2
      (by omega)
  | @supersede todo t op ops ht hop _ ih =>
    intro done s old fresh n htiles hs hf hgrid hn
    rw [filedBy_cons] at hn
    have hnot : t ∉ done := by
      rw [← htiles] at hnodup
      exact fun hd => disjoint_of_nodup_append hnodup hd ht
    exact ih htiles (apply_steady op hgrid.1 (by omega) hs) (hf.supersede hs.sound hop hnot)
      hgrid.2 (by omega)
  | @queue todo t op ops hop _ ih =>
    intro done s old fresh n htiles hs hf hgrid hn
    rw [filedBy_cons] at hn
    have hnot : t ∉ done := by
      rw [← htiles] at hnodup
      exact fun hd => disjoint_of_nodup_append hnodup hd mem_cons_self
    obtain ⟨h, hqueued⟩ := hf.fileTile op.items hs hnot (fun w hw => (hop.ofTile w hw).1)
      hop.passZero op.items_pending hgrid.1 (by omega)
    rw [← SchedOp.apply_refinement hop.refinement] at hqueued
    exact ih (by rw [append_assoc]; exact htiles) (apply_steady op hgrid.1 (by omega) hs)
      hqueued hgrid.2 (by omega)

end Ghostframe.Transport
