import Ghostframe.Codec.Planes
import Ghostframe.Protocol.Wire
import Ghostframe.Transport.Content
import Ghostframe.Transport.SlotMap

/-!
# The tile-work scheduler

Every tile pass waits here for its turn. A slab owns the work items; two kinds of
queues hold handles to them: one FIFO for single-pass codecs, whose items stay
queued until acknowledged, and fourteen buckets of refinement passes, drained pass
by pass, whose items leave when sent. The slot of a tile holds the handle of the
live item of each pass.

* `enqueueAt`, `enqueueRefinementAt`, `bumpGeneration`: new work supersedes old;
* `markAcked`, `recordCdf53Ack`: an acknowledgement;
* `tickAtWith`: drain both queues within a byte budget.

The share of the budget that refinement gets is the source's adaptive 32-bit float
fraction; here it is an argument of the tick, so results hold for every fraction.
-/

namespace Ghostframe.Transport

open Protocol

/-- Where a work item stands. -/
inductive WorkState
  | pending
  | inFlight
  | acked
  | superseded
  deriving DecidableEq

/-- One pass of one tile, to be sent. -/
structure TileWork where
  tileX : UInt8
  tileY : UInt8
  generation : UInt8
  passIdx : UInt8
  totalPasses : UInt8
  codec : Codec
  payload : Bytes
  queuedAt : Instant
  lastSentAt : Option Instant
  state : WorkState
  deriving DecidableEq

namespace TileWork

variable (w : TileWork)

/-- Not resolved yet: waiting, or sent and unacknowledged. -/
def Active : Prop := w.state = .pending ∨ w.state = .inFlight

/-- Resolved: acknowledged or superseded. -/
def Terminal : Prop := w.state = .superseded ∨ w.state = .acked

instance (w : TileWork) : Decidable w.Active := inferInstanceAs (Decidable (_ ∨ _))

instance (w : TileWork) : Decidable w.Terminal := inferInstanceAs (Decidable (_ ∨ _))

theorem active_iff_not_terminal : w.Active ↔ ¬ w.Terminal := by
  unfold Active Terminal
  cases w.state <;> simp

/-- The item as an `enqueue` files it. -/
def queued (now : Instant) : TileWork :=
  { w with queuedAt := now, lastSentAt := none, state := .pending }

/-- The item as a drain leaves it. -/
def sent (now : Instant) : TileWork :=
  { w with lastSentAt := some now, state := .inFlight }

end TileWork

/-- What a supersession reports about a retired item. -/
structure ResolvedTileWork where
  tileX : UInt8
  tileY : UInt8
  generation : UInt8
  pass : UInt8
  codec : Codec
  paletteId : Option UInt8
  paletteBundled : Bool
  viaAck : Bool
  deriving DecidableEq

/-- The palette slot a work item names: payload byte 1 of a palette tile. -/
def TileWork.paletteId (w : TileWork) : Option UInt8 :=
  if w.codec = .palRle then w.payload[1]? else none

/-- Whether a work item carries its palette: bit 0 of a palette tile's first byte. -/
def TileWork.paletteBundled (w : TileWork) : Bool :=
  w.codec = .palRle && w.payload.head?.any fun f => f &&& 1 ≠ 0

/-! ### Tiles with queued refinement work -/

/-- For each tile of the grid its queued refinement passes, and the tiles with any. -/
structure RefinementDeficit where
  cols : ℕ
  perTile : List ℕ
  tiles : ℕ

namespace RefinementDeficit

/-- `RefinementDeficit::new`, and the value after `reset`. -/
def new (cols rows : ℕ) : RefinementDeficit := ⟨cols, List.replicate (cols * rows) 0, 0⟩

variable (d : RefinementDeficit)

/-- `index`. -/
def index (x y : UInt8) : Option ℕ :=
  if d.cols ≤ x.toNat then none
  else
    let i := y.toNat * d.cols + x.toNat
    if i < d.perTile.length then some i else none

/-- `push`. -/
def push (x y : UInt8) : RefinementDeficit :=
  match d.index x y with
  | none => d
  | some i =>
    { d with
      tiles := if d.perTile.getD i 0 = 0 then d.tiles + 1 else d.tiles
      perTile := d.perTile.modify i (· + 1) }

/-- `pop`. -/
def pop (x y : UInt8) : RefinementDeficit :=
  match d.index x y with
  | none => d
  | some i =>
    if d.perTile.getD i 0 = 0 then d
    else
      { d with
        tiles := if d.perTile.getD i 0 = 1 then d.tiles - 1 else d.tiles
        perTile := d.perTile.modify i (· - 1) }

end RefinementDeficit

/-! ### The queues -/

/-- What a bucket was pushed since the last drain. -/
structure FreshRun where
  start : Option ℕ := none
  cursorPushed : Bool := false
  deriving DecidableEq

/-- The queue of one refinement pass, the tile last sent from it, and its new run. -/
structure Bucket where
  order : List Handle := []
  cursor : Option (UInt8 × UInt8) := none
  fresh : FreshRun := {}

/-- The bucket with a handle pushed at its back. -/
def Bucket.push (b : Bucket) (h : Handle) (tile : UInt8 × UInt8) : Bucket where
  order := b.order ++ [h]
  cursor := b.cursor
  fresh :=
    { start := some (b.fresh.start.getD b.order.length)
      cursorPushed := b.fresh.cursorPushed || b.cursor = some tile }

/-- The scheduler. -/
structure Scheduler where
  cols : ℕ
  rows : ℕ
  work : Slab TileWork
  priorityOrder : List Handle
  buckets : List Bucket
  pendingItems : ℕ
  refinementDeficit : RefinementDeficit
  retryAfter : Duration
  itemOverhead : ℕ
  slots : SlotMap
  sized : buckets.length = passSlots

namespace Scheduler

/-- `Scheduler::new`. -/
def new (cols rows : ℕ) : Scheduler where
  cols := cols
  rows := rows
  work := .new
  priorityOrder := []
  buckets := List.replicate passSlots {}
  pendingItems := 0
  refinementDeficit := .new cols rows
  retryAfter := fromMillis 40
  itemOverhead := 0
  slots := .new cols rows
  sized := List.length_replicate

variable (s : Scheduler)

/-- `resize`. -/
def resize (cols rows : ℕ) : Scheduler :=
  { s with
    cols := cols
    rows := rows
    work := s.work.clear
    pendingItems := 0
    priorityOrder := []
    buckets := List.replicate passSlots {}
    refinementDeficit := .new cols rows
    slots := .new cols rows
    sized := List.length_replicate }

/-- `clear`. -/
def clear (s : Scheduler) : Scheduler :=
  { s with
    work := s.work.clear
    pendingItems := 0
    priorityOrder := []
    buckets := List.replicate passSlots {}
    refinementDeficit := .new s.cols s.rows
    slots := s.slots.clearHandles
    sized := List.length_replicate }

variable (x y : UInt8)

/-- `frame_label`. -/
def frameLabel (seq : UInt32) : Scheduler × UInt32 :=
  ({ s with slots := (s.slots.labelOrAssign x y seq).1 }, (s.slots.labelOrAssign x y seq).2)

/-! ### Retiring -/

/-- An active item becomes superseded; a resolved one stays as it is. -/
def retire (h : Handle) : Scheduler :=
  match s.work.get h with
  | none => s
  | some w =>
    if w.Active then
      { s with
        pendingItems := if w.state = .pending then s.pendingItems - 1 else s.pendingItems
        work := s.work.modify h fun w => { w with state := .superseded } }
    else s

/-- `supersede_live_handle`. -/
def supersedeLiveHandle (x y p : UInt8) : Scheduler :=
  match s.slots.handle x y p with
  | none => s
  | some h => s.retire h

/-- The pass indices of a tile, in order. -/
def passIndices : List UInt8 := (List.range passSlots).map UInt8.ofNat

/-- `supersede_pending_for_tile`. -/
def supersedePendingForTile : Scheduler :=
  passIndices.foldl (fun s p => s.supersedeLiveHandle x y p)
    { s with slots := s.slots.clearLabel x y }

/-- `bump_generation`; returns the new generation. -/
def bumpGeneration (s : Scheduler) (x y : UInt8) : Scheduler × UInt8 :=
  let t := s.supersedePendingForTile x y
  ({ t with slots := (t.slots.bumpGeneration x y).1 }, (t.slots.bumpGeneration x y).2)

variable (w : TileWork)

/-- What is reported about a retired item. -/
def resolved : ResolvedTileWork where
  tileX := x
  tileY := y
  generation := w.generation
  pass := w.passIdx
  codec := w.codec
  paletteId := w.paletteId
  paletteBundled := w.paletteBundled
  viaAck := false

/-- The item of a pass that a supersession would retire. -/
def liveWork (x y p : UInt8) : Option TileWork :=
  ((s.slots.handle x y p).bind s.work.get).filter fun w => w.Active

/-- One pass of `bump_generation_collecting`: report the live item, then retire it. -/
def collectPass (acc : Scheduler × List ResolvedTileWork) (p : UInt8) :
    Scheduler × List ResolvedTileWork :=
  (acc.1.supersedeLiveHandle x y p, acc.2 ++ ((acc.1.liveWork x y p).map (resolved x y)).toList)

/-- `bump_generation_collecting`; returns the new generation and the items retired. -/
def bumpGenerationCollecting : Scheduler × UInt8 × List ResolvedTileWork :=
  let acc := passIndices.foldl (collectPass x y) (s, [])
  ({ acc.1 with slots := (acc.1.slots.bumpGeneration x y).1 },
    (acc.1.slots.bumpGeneration x y).2, acc.2)

/-! ### Acknowledgements -/

/-- `mark_acked`. -/
def markAcked (x y gen p : UInt8) : Scheduler :=
  match s.slots.handle x y p with
  | none => s
  | some h =>
    { s with
      work := s.work.modify h fun w =>
        if w.generation = gen ∧ w.state = .inFlight then { w with state := .acked } else w }

/-- `record_cdf53_ack`. -/
def recordCdf53Ack (x y gen p : UInt8) : Scheduler :=
  { s with slots := s.slots.recordAck x y gen p }

/-! ### Filing -/

/-- Store an item and make it the one its slot holds, superseding the one before. -/
def file : Scheduler × Handle :=
  let t := s.supersedeLiveHandle w.tileX w.tileY w.passIdx
  let h := (t.work.insert w).2
  ({ t with
      work := (t.work.insert w).1
      pendingItems := t.pendingItems + 1
      slots := t.slots.setHandle w.tileX w.tileY w.passIdx (some h) }, h)

/-- `enqueue_at`. -/
def enqueueAt (now : Instant) : Scheduler :=
  let t := s.file (w.queued now)
  { t.1 with priorityOrder := t.1.priorityOrder ++ [t.2] }

/-- The bucket a pass is queued in. -/
def bucketOf (p : UInt8) : ℕ := min p.toNat (passSlots - 1)

/-- `push_refinement`. -/
def pushRefinement (p : UInt8) (h : Handle) (x y : UInt8) : Scheduler :=
  { s with
    buckets := s.buckets.modify (bucketOf p) fun b => b.push h (x, y)
    sized := by rw [List.length_modify, s.sized] }

/-- File an item of refinement work and queue it in its bucket. -/
def fileRefinement : Scheduler :=
  let t := s.file w
  let u := t.1.pushRefinement w.passIdx t.2 w.tileX w.tileY
  { u with refinementDeficit := u.refinementDeficit.push w.tileX w.tileY }

/-- `enqueue_refinement_work_at`. -/
def enqueueRefinementWorkAt (now : Instant) : Scheduler :=
  s.fileRefinement (w.queued now)

/-- A pass of refinement work as the two enqueue functions build it. -/
def refinementWork (x y gen p total : UInt8) (now : Instant) (payload : Bytes) : TileWork where
  tileX := x
  tileY := y
  generation := gen
  passIdx := p
  totalPasses := total
  codec := .cdf53
  payload := payload
  queuedAt := now
  lastSentAt := none
  state := .pending

/-- The items `enqueue_refinement_at` files, in order. -/
def refinementItems (x y gen : UInt8) (passes : List Bytes) (now : Instant) : List TileWork :=
  passes.mapIdx fun i payload =>
    refinementWork x y gen (UInt8.ofNat i) (UInt8.ofNat passes.length) now payload

/-- `enqueue_refinement_at`. -/
def enqueueRefinementAt (x y gen : UInt8) (passes : List Bytes) (now : Instant) : Scheduler :=
  (refinementItems x y gen passes now).foldl fileRefinement s

/-- The passes a mask names, each with the next payload; the walk ends with the payloads. -/
def subsetPasses (mask : UInt16) : List ℕ → List Bytes → List (UInt8 × Bytes)
  | [], _ => []
  | p :: ps, payloads =>
    if mask &&& (1 <<< UInt16.ofNat p) = 0 then subsetPasses mask ps payloads
    else
      match payloads with
      | [] => []
      | payload :: rest => (UInt8.ofNat p, payload) :: subsetPasses mask ps rest

/-- The items `enqueue_refinement_subset_at` files, in order. -/
def subsetItems (x y gen : UInt8) (mask : UInt16) (payloads : List Bytes) (now : Instant) :
    List TileWork :=
  (subsetPasses mask (List.range 16) payloads).map fun q =>
    refinementWork x y gen q.1 (UInt8.ofNat Codec.cdf53PassCount) now q.2

/-- `enqueue_refinement_subset_at`. -/
def enqueueRefinementSubsetAt (x y gen : UInt8) (mask : UInt16)
    (payloads : List Bytes) (now : Instant) : Scheduler :=
  (subsetItems x y gen mask payloads now).foldl fileRefinement s

/-! ### Draining -/

end Scheduler

/-- An item a tick returned, with its handle and whether it was in flight already. -/
structure SentWork where
  handle : Handle
  retry : Bool
  work : TileWork

/-- What both drains of one tick are given. -/
structure TickArgs where
  now : Instant
  recoveryOwned : UInt8 → UInt8 → UInt8 → Bool
  retryAfter : Duration
  itemOverhead : ℕ

/-- What an item costs of the budget. -/
def TickArgs.cost (args : TickArgs) (w : TileWork) : ℕ := w.payload.length + args.itemOverhead

/-- May a queued priority item be sent now? -/
def TickArgs.eligible (args : TickArgs) (w : TileWork) : Bool :=
  match w.state with
  | .pending => true
  | .inFlight =>
    (w.lastSentAt.all fun t => args.retryAfter ≤ args.now - t) &&
      !args.recoveryOwned w.tileX w.tileY w.passIdx
  | .acked => false
  | .superseded => false

/-- Drop resolved items from a queue, freeing their cells. -/
def pruneOrder : Slab TileWork → List Handle → Slab TileWork × List Handle
  | work, [] => (work, [])
  | work, h :: hs =>
    match work.get h with
    | some w =>
      if w.Terminal then pruneOrder (work.remove h) hs
      else ((pruneOrder work hs).1, h :: (pruneOrder work hs).2)
    | none => pruneOrder work hs

/-- The variables of the priority drain. -/
structure PriorityDrain where
  work : Slab TileWork
  pendingItems : ℕ
  spent : ℕ
  out : List SentWork

/-- The priority drain after sending one item. -/
def PriorityDrain.send (d : PriorityDrain) (args : TickArgs) (h : Handle) (w : TileWork) :
    PriorityDrain where
  work := d.work.modify h fun w => w.sent args.now
  pendingItems := if w.state = .inFlight then d.pendingItems else d.pendingItems - 1
  spent := d.spent + args.cost w
  out := d.out ++ [⟨h, w.state = .inFlight, w.sent args.now⟩]

/-- The loop of `drain_priority_queue`. -/
def drainPriority (args : TickArgs) (budget : ℕ) : List Handle → PriorityDrain → PriorityDrain
  | [], d => d
  | h :: hs, d =>
    match d.work.get h with
    | none => drainPriority args budget hs d
    | some w =>
      if args.eligible w = false then drainPriority args budget hs d
      else if budget ≤ d.spent then d
      else drainPriority args budget hs (d.send args h w)

/-- What the pruning walk over a bucket has found. -/
structure Pruned where
  work : Slab TileWork
  deficit : RefinementDeficit
  kept : List Handle
  removedBeforeFresh : ℕ

/-- The `retain` of `prune_and_rotate`; `i` is the position in the bucket. -/
def pruneBucket (start : Option ℕ) : ℕ → List Handle → Pruned → Pruned
  | _, [], acc => acc
  | i, h :: hs, acc =>
    let removed := acc.removedBeforeFresh + if start.any fun f => i < f then 1 else 0
    match acc.work.get h with
    | some w =>
      if w.Terminal then
        pruneBucket start (i + 1) hs
          { acc with
            work := acc.work.remove h
            deficit := acc.deficit.pop w.tileX w.tileY
            removedBeforeFresh := removed }
      else pruneBucket start (i + 1) hs { acc with kept := acc.kept ++ [h] }
    | none => pruneBucket start (i + 1) hs { acc with removedBeforeFresh := removed }

/-- `rotate_left` of the tail from `start`, past the first entry that satisfies `p`. -/
def rotatePast (start : ℕ) (p : Handle → Bool) (order : List Handle) : List Handle :=
  match (order.drop start).findIdx? p with
  | none => order
  | some i => order.take start ++ (order.drop start).rotate (i + 1)

/-- The handle is of work on the tile. -/
def isOfTile (work : Slab TileWork) (tile : UInt8 × UInt8) (h : Handle) : Bool :=
  (work.get h).any fun w => w.tileX = tile.1 ∧ w.tileY = tile.2

/-- The order of a bucket after pruning, rotated when its cursor tile was queued again. -/
def rotateFresh (b : Bucket) (pruned : Pruned) : List Handle :=
  match b.fresh.start, b.cursor with
  | some start, some tile =>
    if b.fresh.cursorPushed then
      rotatePast (start - pruned.removedBeforeFresh) (isOfTile pruned.work tile) pruned.kept
    else pruned.kept
  | _, _ => pruned.kept

/-- `prune_and_rotate` over every bucket, with its new run forgotten. -/
def pruneBuckets (work : Slab TileWork) (deficit : RefinementDeficit) :
    List Bucket → Slab TileWork × RefinementDeficit × List Bucket
  | [] => (work, deficit, [])
  | b :: bs =>
    let pruned := pruneBucket b.fresh.start 0 b.order ⟨work, deficit, [], 0⟩
    let rest := pruneBuckets pruned.work pruned.deficit bs
    (rest.1, rest.2.1, ⟨rotateFresh b pruned, b.cursor, {}⟩ :: rest.2.2)

/-- The variables of the refinement drain. -/
structure RefinementDrain where
  work : Slab TileWork
  deficit : RefinementDeficit
  leftPending : ℕ
  spent : ℕ
  out : List SentWork

/-- The refinement drain after sending one item. -/
def RefinementDrain.send (d : RefinementDrain) (args : TickArgs) (h : Handle) (w : TileWork) :
    RefinementDrain where
  work := d.work.remove h
  deficit := d.deficit.pop w.tileX w.tileY
  leftPending := if w.state = .pending then d.leftPending + 1 else d.leftPending
  spent := d.spent + args.cost w
  out := d.out ++ [⟨h, false, w.sent args.now⟩]

/-- Is there no budget left for an item of this cost?  The first item is free of the limit. -/
def RefinementDrain.exhausted (d : RefinementDrain) (budget cost : ℕ) : Prop :=
  budget = 0 ∨ (0 < d.spent ∧ budget < d.spent + cost)

instance (d : RefinementDrain) (budget cost : ℕ) : Decidable (d.exhausted budget cost) :=
  inferInstanceAs (Decidable (_ ∨ _))

/-- A bucket being drained: what is left of it, its cursor, and whether the drain ended in it. -/
structure BucketDrain where
  drain : RefinementDrain
  left : List Handle
  cursor : Option (UInt8 × UInt8)
  stopped : Bool

/-- The `while` loop over one bucket. -/
def drainBucket (args : TickArgs) (budget : ℕ) :
    List Handle → Option (UInt8 × UInt8) → RefinementDrain → BucketDrain
  | [], cursor, d => ⟨d, [], cursor, false⟩
  | h :: hs, cursor, d =>
    match d.work.get h with
    | none => drainBucket args budget hs cursor d
    | some w =>
      if d.exhausted budget (args.cost w) then ⟨d, h :: hs, cursor, true⟩
      else drainBucket args budget hs (some (w.tileX, w.tileY)) (d.send args h w)

/-- The loop over the buckets, until one ends the drain. -/
def drainBuckets (args : TickArgs) (budget : ℕ) :
    List Bucket → RefinementDrain → RefinementDrain × List Bucket
  | [], d => (d, [])
  | b :: bs, d =>
    let r := drainBucket args budget b.order b.cursor d
    let b' : Bucket := ⟨r.left, r.cursor, b.fresh⟩
    if r.stopped then (r.drain, b' :: bs)
    else ((drainBuckets args budget bs r.drain).1, b' :: (drainBuckets args budget bs r.drain).2)

namespace Scheduler

theorem length_pruneBuckets (work : Slab TileWork) (deficit : RefinementDeficit)
    (bs : List Bucket) : (pruneBuckets work deficit bs).2.2.length = bs.length := by
  induction bs generalizing work deficit with
  | nil => rfl
  | cons b bs ih => simp [pruneBuckets, ih]

theorem length_drainBuckets (args : TickArgs) (budget : ℕ) (bs : List Bucket)
    (d : RefinementDrain) : (drainBuckets args budget bs d).2.length = bs.length := by
  induction bs generalizing d with
  | nil => rfl
  | cons b bs ih =>
    simp only [drainBuckets]
    split <;> simp [ih]

variable (s : Scheduler)

/-- What the drains of this scheduler are given. -/
def tickArgs (now : Instant) (recoveryOwned : UInt8 → UInt8 → UInt8 → Bool) :
    TickArgs :=
  ⟨now, recoveryOwned, s.retryAfter, s.itemOverhead⟩

/-- The priority and refinement budgets: an empty queue leaves its share to the other. -/
def splitBudget (budget share : ℕ) : ℕ × ℕ :=
  if s.buckets.all fun b => b.order.isEmpty then (budget, 0)
  else if s.priorityOrder.isEmpty then (0, budget)
  else (budget - share, share)

/-- `drain_priority_queue`. -/
def drainPriorityQueue (args : TickArgs) (budget : ℕ) : Scheduler × List SentWork :=
  let pruned := pruneOrder s.work s.priorityOrder
  let d := drainPriority args budget pruned.2 ⟨pruned.1, s.pendingItems, 0, []⟩
  ({ s with work := d.work, priorityOrder := pruned.2, pendingItems := d.pendingItems }, d.out)

/-- The first loop of `drain_refinement_pass_major`. -/
def pruneRefinement : Scheduler :=
  let pruned := pruneBuckets s.work s.refinementDeficit s.buckets
  { s with
    work := pruned.1
    refinementDeficit := pruned.2.1
    buckets := pruned.2.2
    sized := by rw [length_pruneBuckets, s.sized] }

/-- The second loop of `drain_refinement_pass_major`. -/
def drainRefinement (args : TickArgs) (budget : ℕ) (out : List SentWork) :
    Scheduler × List SentWork :=
  let r := drainBuckets args budget s.buckets ⟨s.work, s.refinementDeficit, 0, 0, out⟩
  ({ s with
      work := r.1.work
      refinementDeficit := r.1.deficit
      buckets := r.2
      pendingItems := s.pendingItems - r.1.leftPending
      sized := by rw [length_drainBuckets, s.sized] }, r.1.out)

/-- `tick_at_with`; `share` is the part of the budget the refinement fraction gives. -/
def tickAtWith (budget share : ℕ) (now : Instant)
    (recoveryOwned : UInt8 → UInt8 → UInt8 → Bool) : Scheduler × List SentWork :=
  let args := s.tickArgs now recoveryOwned
  let split := s.splitBudget budget share
  let first := s.drainPriorityQueue args split.1
  first.1.pruneRefinement.drainRefinement args split.2 first.2

end Scheduler

end Ghostframe.Transport
