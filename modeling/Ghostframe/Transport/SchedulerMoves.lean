import Ghostframe.Transport.Scheduler

/-!
# What the scheduler's operations do

The loops of the scheduler, reduced to what one pass through them can do.

* `Move`: the five things a tick does to one item — drop a resolved one from either
  queue, send one from either queue, rearrange a bucket;
* `tick_moves`: a tick is a sequence of moves, whatever its budgets; `Moves.inv`: what
  every move preserves, the tick does;
* `tick_items`: what a tick leaves and sends.
-/

namespace Ghostframe.Transport

open List Option Slab TileWork

/-- The item after a supersession. -/
def TileWork.supersede (w : TileWork) : TileWork :=
  if w.Active then { w with state := .superseded } else w

theorem TileWork.supersede_not_active (w : TileWork) : ¬ w.supersede.Active := by
  unfold supersede
  by_cases h : w.Active
  · rw [if_pos h]
    simp [Active]
  · rwa [if_neg h]

variable {w : TileWork}

theorem TileWork.supersede_of_not_active (h : ¬ w.Active) : w.supersede = w := if_neg h

theorem TileWork.supersede_state_ne {st : WorkState} (hst : st ≠ .superseded)
    (h : w.supersede.state = st) : w.state = st := by
  unfold supersede at h
  split at h
  · exact absurd h.symm hst
  · exact h

theorem TickArgs.active_of_eligible {args : TickArgs} (he : args.eligible w ≠ false) :
    w.Active := by
  unfold TickArgs.eligible at he
  unfold TileWork.Active
  cases hst : w.state <;> simp_all

namespace Scheduler

variable {s : Scheduler} {h k : Handle} {x y p : UInt8}

/-! ### Superseding -/

theorem retire_eq (s : Scheduler) (h : Handle) :
    ∃ work n, s.retire h = { s with work := work, pendingItems := n } := by
  unfold retire
  split
  · exact ⟨s.work, s.pendingItems, rfl⟩
  · split
    · exact ⟨_, _, rfl⟩
    · exact ⟨s.work, s.pendingItems, rfl⟩

/-- Retiring supersedes the item of one handle. -/
theorem get_retire (s : Scheduler) (h k : Handle) :
    (s.retire h).work.get k =
      if k = h then (s.work.get k).map supersede else s.work.get k := by
  unfold retire
  cases hg : s.work.get h with
  | none =>
    by_cases hk : k = h
    · rw [if_pos hk, hk, hg, map_none]
    · rw [if_neg hk]
  | some w =>
    by_cases hk : k = h
    · subst hk
      rw [if_pos rfl, hg, map_some]
      by_cases ha : w.Active
      · simp only [if_pos ha, get_modify, hg, map_some, supersede]
        rfl
      · simp only [if_neg ha, hg, supersede_of_not_active ha]
    · rw [if_neg hk]
      by_cases ha : w.Active
      · simp only [if_pos ha, get_modify, if_neg hk]
      · simp only [if_neg ha]

/-- Retire the items the slot of a tile holds for some passes. -/
def retirePasses (s : Scheduler) (x y : UInt8) (ps : List UInt8) : Scheduler :=
  ps.foldl (fun s p => s.supersedeLiveHandle x y p) s

theorem supersedeLiveHandle_eq (s : Scheduler) (x y p : UInt8) :
    ∃ work n, s.supersedeLiveHandle x y p = { s with work := work, pendingItems := n } := by
  unfold supersedeLiveHandle
  split
  · exact ⟨s.work, s.pendingItems, rfl⟩
  · exact retire_eq s _

theorem get_supersedeLiveHandle (s : Scheduler) (x y p : UInt8) (k : Handle) :
    (s.supersedeLiveHandle x y p).work.get k =
      if s.slots.handle x y p = some k then (s.work.get k).map supersede
      else s.work.get k := by
  unfold supersedeLiveHandle
  cases hh : s.slots.handle x y p with
  | none => simp
  | some h =>
    simp only [get_retire, Option.some.injEq, eq_comm]

theorem retirePasses_eq (s : Scheduler) (x y : UInt8) (ps : List UInt8) :
    ∃ work n, s.retirePasses x y ps = { s with work := work, pendingItems := n } := by
  induction ps generalizing s with
  | nil => exact ⟨s.work, s.pendingItems, rfl⟩
  | cons p ps ih =>
    obtain ⟨work, n, he⟩ := supersedeLiveHandle_eq s x y p
    obtain ⟨work', n', he'⟩ := ih { s with work := work, pendingItems := n }
    refine ⟨work', n', ?_⟩
    rw [retirePasses, foldl_cons, he]
    exact he'

theorem slots_retirePasses (s : Scheduler) (x y : UInt8) (ps : List UInt8) :
    (s.retirePasses x y ps).slots = s.slots := by
  obtain ⟨work, n, he⟩ := retirePasses_eq s x y ps
  rw [he]

/-- **Superseding a tile retires exactly what its slot holds.** -/
theorem get_retirePasses (s : Scheduler) (x y : UInt8) (ps : List UInt8) (k : Handle) :
    (s.retirePasses x y ps).work.get k =
      if ∃ p ∈ ps, s.slots.handle x y p = some k then (s.work.get k).map supersede
      else s.work.get k := by
  induction ps generalizing s with
  | nil => simp [retirePasses]
  | cons p ps ih =>
    obtain ⟨work, n, he⟩ := supersedeLiveHandle_eq s x y p
    have hslots : (s.supersedeLiveHandle x y p).slots = s.slots := by rw [he]
    have hrec :
      s.retirePasses x y (p :: ps) = (s.supersedeLiveHandle x y p).retirePasses x y ps := rfl
    rw [hrec, ih, hslots, get_supersedeLiveHandle]
    by_cases hp : s.slots.handle x y p = some k
    · have hex : ∃ q ∈ p :: ps, s.slots.handle x y q = some k := ⟨p, mem_cons_self, hp⟩
      split
      · cases s.work.get k with
        | none => rfl
        | some w =>
          simp only [map_some]
          rw [supersede_of_not_active w.supersede_not_active]
      · rfl
    · rw [if_neg hp]
      simp only [mem_cons, exists_eq_or_imp, hp, false_or]

/-- The pass indices are those below `passSlots`. -/
theorem mem_passIndices (p : UInt8) : p ∈ passIndices ↔ p.toNat < passSlots := by
  constructor
  · intro hp
    obtain ⟨i, hi, rfl⟩ := mem_map.1 hp
    rw [mem_range] at hi
    have hi' : i < 14 := hi
    rw [UInt8.toNat_ofNat_of_lt' (by norm_num [UInt8.size]; omega)]
    exact hi
  · intro hp
    exact mem_map.2 ⟨p.toNat, mem_range.2 hp, UInt8.ofNat_toNat⟩

/-- `bump_generation_collecting` retires what `bump_generation` does. -/
theorem collect_fst (s : Scheduler) (x y : UInt8) (ps : List UInt8)
    (acc : List ResolvedTileWork) :
    (ps.foldl (collectPass x y) (s, acc)).1 = s.retirePasses x y ps := by
  induction ps generalizing s acc with
  | nil => rfl
  | cons p ps ih =>
    exact ih _ _

/-! ### What a tick does to one item -/

/-- The scheduler with its slab, its refinement queues and their count replaced. -/
def withRefinement (s : Scheduler) (work : Slab TileWork) (deficit : RefinementDeficit)
    (bs : List Bucket) (hbs : bs.length = passSlots) : Scheduler :=
  { s with work := work, refinementDeficit := deficit, buckets := bs, sized := hbs }

/-- One thing a tick does, with the items sent so far. -/
inductive Move (now : Instant) : Scheduler × List SentWork → Scheduler × List SentWork → Prop
  /-- A resolved item leaves the priority queue and the slab. -/
  | discard {s : Scheduler} {out : List SentWork} {l₁ l₂ : List Handle} {h : Handle}
      (hq : s.priorityOrder = l₁ ++ h :: l₂)
      (hdone : ∀ w, s.work.get h = some w → w.Terminal) :
      Move now (s, out) ({ s with work := s.work.remove h, priorityOrder := l₁ ++ l₂ }, out)
  /-- A priority item is sent; it stays queued until acknowledged. -/
  | emit {s : Scheduler} {out : List SentWork} {h : Handle} {w : TileWork}
      (hq : h ∈ s.priorityOrder) (hw : s.work.get h = some w) (ha : w.Active) :
      Move now (s, out)
        ({ s with
            work := s.work.modify h fun w => w.sent now
            pendingItems := if w.state = .inFlight then s.pendingItems else s.pendingItems - 1 },
          out ++ [⟨h, w.state = .inFlight, w.sent now⟩])
  /-- A resolved item leaves its bucket and the slab. -/
  | discardRefinement {s : Scheduler} {out : List SentWork} {bs₁ bs₂ : List Bucket} {b : Bucket}
      {l₁ l₂ : List Handle} {h : Handle} (hb : s.buckets = bs₁ ++ b :: bs₂)
      (hq : b.order = l₁ ++ h :: l₂) (hdone : ∀ w, s.work.get h = some w → w.Terminal)
      (hbs : (bs₁ ++ { b with order := l₁ ++ l₂ } :: bs₂).length = passSlots) :
      Move now (s, out)
        (s.withRefinement (s.work.remove h)
          (((s.work.get h).map fun w => s.refinementDeficit.pop w.tileX w.tileY).getD
            s.refinementDeficit)
          (bs₁ ++ { b with order := l₁ ++ l₂ } :: bs₂) hbs, out)
  /-- A refinement item is sent; it leaves its bucket and the slab. -/
  | send {s : Scheduler} {out : List SentWork} {bs₁ bs₂ : List Bucket} {b : Bucket}
      {l₂ : List Handle} {h : Handle} {w : TileWork} (b' : Bucket)
      (hb : s.buckets = bs₁ ++ b :: bs₂)
      (hq : b.order = h :: l₂) (hb' : b'.order = l₂) (hw : s.work.get h = some w) (ha : w.Active)
      (hbs : (bs₁ ++ b' :: bs₂).length = passSlots) :
      Move now (s, out)
        ({ s.withRefinement (s.work.remove h) (s.refinementDeficit.pop w.tileX w.tileY)
              (bs₁ ++ b' :: bs₂) hbs with
            pendingItems := if w.state = .pending then s.pendingItems - 1 else s.pendingItems },
          out ++ [⟨h, false, w.sent now⟩])
  /-- A bucket is rearranged. -/
  | arrange {s : Scheduler} {out : List SentWork} {bs₁ bs₂ : List Bucket} {b b' : Bucket}
      (hb : s.buckets = bs₁ ++ b :: bs₂) (hperm : b'.order.Perm b.order)
      (hbs : (bs₁ ++ b' :: bs₂).length = passSlots) :
      Move now (s, out)
        (s.withRefinement s.work s.refinementDeficit (bs₁ ++ b' :: bs₂) hbs, out)

/-- A sequence of moves. -/
def Moves (now : Instant) : Scheduler × List SentWork → Scheduler × List SentWork → Prop :=
  Relation.ReflTransGen (Move now)

variable {now : Instant}

/-- What every move preserves, a sequence of moves preserves. -/
theorem Moves.inv {P : Scheduler → List SentWork → Prop}
    (hstep : ∀ {s s' : Scheduler} {out out' : List SentWork}, Move now (s, out) (s', out') →
      P s out → P s' out')
    {a b : Scheduler × List SentWork} (hab : Moves now a b) (ha : P a.1 a.2) : P b.1 b.2 := by
  induction hab with
  | refl => exact ha
  | tail _ hmove ih => exact hstep hmove ih

/-! ### The priority queue -/

/-- Pruning the priority queue is a sequence of moves. -/
theorem pruneOrder_moves (now : Instant) (hs : List Handle) (s : Scheduler) (out : List SentWork)
    (kept : List Handle) (hq : s.priorityOrder = kept ++ hs) :
    Moves now (s, out)
      ({ s with
          work := (pruneOrder s.work hs).1
          priorityOrder := kept ++ (pruneOrder s.work hs).2 }, out) := by
  generalize hwork : s.work = work
  fun_induction pruneOrder work hs generalizing s kept with
  | case1 work =>
    rw [← hq, ← hwork]
    exact .refl
  | case2 work h hs w hg ht ih =>
    subst hwork
    have hmove : Move now (s, out) _ := Move.discard hq (by
      intro w' hw'
      rw [hg] at hw'
      exact some.inj hw' ▸ ht)
    exact .head hmove
      (ih { s with work := s.work.remove h, priorityOrder := kept ++ hs } kept rfl rfl)
  | case3 work h hs w hg ht ih =>
    have hrec := ih s (kept ++ [h]) (by rw [hq, append_assoc]; rfl) hwork
    rw [append_assoc] at hrec
    exact hrec
  | case4 work h hs hg ih =>
    subst hwork
    have hmove : Move now (s, out) _ := Move.discard hq (by simp [hg])
    rw [remove_of_none hg] at hmove
    exact .head hmove (ih { s with priorityOrder := kept ++ hs } kept rfl rfl)

variable (args : TickArgs) (budget : ℕ) {t : Scheduler}

/-- Draining the priority queue is a sequence of moves. -/
theorem drainPriority_moves (budget : ℕ) (hs : List Handle) (s : Scheduler) (d : PriorityDrain)
    (hsub : hs ⊆ s.priorityOrder) (hwork : d.work = s.work)
    (hpend : d.pendingItems = s.pendingItems) :
    Moves args.now (s, d.out)
      ({ s with
          work := (drainPriority args budget hs d).work
          pendingItems := (drainPriority args budget hs d).pendingItems },
        (drainPriority args budget hs d).out) := by
  fun_induction drainPriority args budget hs d generalizing s with
  | case1 | case4 =>
    rw [hwork, hpend]
    exact .refl
  | case2 h hs d hg ih | case3 h hs d w hg he ih =>
    exact ih s (subset_of_cons_subset hsub) hwork hpend
  | case5 h hs d w hg he hb ih =>
    have hmove : Move args.now (s, d.out) _ :=
      Move.emit (hsub mem_cons_self) (hwork ▸ hg) (TickArgs.active_of_eligible he)
    refine .head hmove (ih _ (subset_of_cons_subset hsub) ?_ ?_)
    · simp only [PriorityDrain.send, hwork]
    · simp only [PriorityDrain.send, hpend]

/-! ### The buckets -/

/-- Pruning a bucket is a sequence of moves. -/
theorem pruneBucket_moves (now : Instant) (start : Option ℕ) (bs₁ bs₂ : List Bucket) (b : Bucket)
    (hs : List Handle) (i : ℕ) (acc : Pruned) (s : Scheduler) (out : List SentWork)
    (hb : s.buckets = bs₁ ++ { b with order := acc.kept ++ hs } :: bs₂) (hwork : acc.work = s.work)
    (hdef : acc.deficit = s.refinementDeficit)
    (hlen : ∀ l, (bs₁ ++ { b with order := l } :: bs₂).length = passSlots) :
    Moves now (s, out)
      (s.withRefinement (pruneBucket start i hs acc).work (pruneBucket start i hs acc).deficit
        (bs₁ ++ { b with order := (pruneBucket start i hs acc).kept } :: bs₂) (hlen _), out) := by
  fun_induction pruneBucket start i hs acc generalizing s with
  | case1 i acc =>
    have hs : s.withRefinement acc.work acc.deficit (bs₁ ++ { b with order := acc.kept } :: bs₂)
        (hlen _) = s := by
      unfold withRefinement
      rw [append_nil] at hb
      simp only [hwork, hdef, ← hb]
    rw [hs]
    exact .refl
  | case2 i h hs acc removed w hg ht ih =>
    have hgs : s.work.get h = some w := hwork ▸ hg
    have hmove : Move now (s, out) _ :=
      Move.discardRefinement hb rfl (by
        intro w' hw'
        rw [hgs] at hw'
        exact some.inj hw' ▸ ht) (hlen (acc.kept ++ hs))
    rw [hgs] at hmove
    refine .head hmove (ih _ rfl ?_ ?_)
    · exact congrArg (remove · h) hwork
    · exact congrArg (RefinementDeficit.pop · w.tileX w.tileY) hdef
  | case3 i h hs acc w hg ht ih =>
    refine ih s ?_ hwork hdef
    rw [hb, append_assoc]
    rfl
  | case4 i h hs acc removed hg ih =>
    have hgs : s.work.get h = none := hwork ▸ hg
    have hmove : Move now (s, out) _ :=
      Move.discardRefinement hb rfl (by simp [hgs]) (hlen (acc.kept ++ hs))
    rw [hgs, remove_of_none hgs] at hmove
    exact .head hmove (ih _ rfl hwork hdef)

/-- Rotating rearranges. -/
theorem rotatePast_perm (start : ℕ) (f : Handle → Bool) (order : List Handle) :
    (rotatePast start f order).Perm order := by
  unfold rotatePast
  split
  · exact .refl _
  · rename_i i _
    calc order.take start ++ (order.drop start).rotate (i + 1)
        |>.Perm (order.take start ++ order.drop start) := (rotate_perm _ _).append_left _
      _ |>.Perm order := .of_eq (take_append_drop start order)

theorem rotateFresh_perm (b : Bucket) (pruned : Pruned) :
    (rotateFresh b pruned).Perm pruned.kept := by
  unfold rotateFresh
  split
  · split
    · exact rotatePast_perm _ _ _
    · exact .refl _
  · exact .refl _

/-- Pruning and rotating the buckets is a sequence of moves. -/
theorem pruneBuckets_moves (now : Instant) (bs : List Bucket) :
    ∀ (s : Scheduler) (out : List SentWork) (done : List Bucket) (hb : s.buckets = done ++ bs),
      Moves now (s, out)
        (s.withRefinement (pruneBuckets s.work s.refinementDeficit bs).1
          (pruneBuckets s.work s.refinementDeficit bs).2.1
          (done ++ (pruneBuckets s.work s.refinementDeficit bs).2.2)
          (by rw [List.length_append, length_pruneBuckets, ← List.length_append, ← hb, s.sized]),
          out) := by
  induction bs with
  | nil =>
    intro s out done hb
    have hs : s.withRefinement s.work s.refinementDeficit (done ++ []) (hb ▸ s.sized) = s := by
      unfold withRefinement
      simp only [← hb]
    simp only [pruneBuckets]
    rw [hs]
    exact .refl
  | cons b bs ih =>
    intro s out done hb
    have hlen : ∀ b', (done ++ b' :: bs).length = passSlots := by
      intro b'
      have := s.sized
      rw [hb] at this
      simpa using this
    have hprune := pruneBucket_moves now b.fresh.start done bs b b.order 0
      ⟨s.work, s.refinementDeficit, [], 0⟩ s out hb rfl rfl fun _ => hlen _
    let pruned := pruneBucket b.fresh.start 0 b.order ⟨s.work, s.refinementDeficit, [], 0⟩
    refine hprune.trans ?_
    refine .head (Move.arrange rfl (rotateFresh_perm b pruned) (hlen ⟨_, b.cursor, {}⟩)) ?_
    have hrec := ih (s.withRefinement pruned.work pruned.deficit
      (done ++ ⟨rotateFresh b pruned, b.cursor, {}⟩ :: bs) (hlen _)) out
      (done ++ [⟨rotateFresh b pruned, b.cursor, {}⟩]) (by rw [append_assoc]; rfl)
    simp only [append_assoc] at hrec
    exact hrec

/-! ### After pruning, the queued refinement work is unresolved -/

/-- Every queued item that is there is unresolved. -/
def Unresolved (work : Slab TileWork) (hs : List Handle) : Prop :=
  ∀ h ∈ hs, ∀ w, work.get h = some w → w.Active

/-- The slab has lost items at most. -/
def Shrinks (work work' : Slab TileWork) : Prop :=
  ∀ k w, work'.get k = some w → work.get k = some w

theorem Shrinks.remove (work : Slab TileWork) (h : Handle) : Shrinks work (work.remove h) := by
  intro k w hk
  rw [get_remove] at hk
  split at hk
  · cases hk
  · exact hk

theorem Shrinks.trans {a b c : Slab TileWork} (hab : Shrinks a b) (hbc : Shrinks b c) :
    Shrinks a c := fun k w hk => hab k w (hbc k w hk)

theorem Unresolved.shrink {work work' : Slab TileWork} {hs : List Handle}
    (hu : Unresolved work hs) (hsh : Shrinks work work') : Unresolved work' hs :=
  fun h hh w hw => hu h hh w (hsh h w hw)

theorem pruneBucket_unresolved (start : Option ℕ) (hs : List Handle) (i : ℕ) (acc : Pruned)
    (hu : Unresolved acc.work acc.kept) :
    Shrinks acc.work (pruneBucket start i hs acc).work ∧
      Unresolved (pruneBucket start i hs acc).work (pruneBucket start i hs acc).kept := by
  fun_induction pruneBucket start i hs acc with
  | case1 i acc => exact ⟨fun k w hk => hk, hu⟩
  | case2 i h hs acc removed w hg ht ih =>
    obtain ⟨hsh, hu'⟩ := ih (hu.shrink (Shrinks.remove acc.work h))
    exact ⟨(Shrinks.remove acc.work h).trans hsh, hu'⟩
  | case3 i h hs acc w hg ht ih =>
    refine ih fun k hk w' hw' => ?_
    rcases mem_append.1 hk with hk | hk
    · exact hu k hk w' hw'
    · rw [mem_singleton.1 hk, hg] at hw'
      exact (active_iff_not_terminal w').2 (some.inj hw' ▸ ht)
  | case4 i h hs acc removed hg ih => exact ih hu

theorem pruneBuckets_unresolved (bs : List Bucket) :
    ∀ (work : Slab TileWork) (deficit : RefinementDeficit),
      Shrinks work (pruneBuckets work deficit bs).1 ∧
        ∀ b ∈ (pruneBuckets work deficit bs).2.2,
          Unresolved (pruneBuckets work deficit bs).1 b.order := by
  induction bs with
  | nil =>
    intro work deficit
    exact ⟨fun k w hk => hk, by simp [pruneBuckets]⟩
  | cons b bs ih =>
    intro work deficit
    obtain ⟨hsh, hu⟩ := pruneBucket_unresolved b.fresh.start b.order 0 ⟨work, deficit, [], 0⟩
      (by simp [Unresolved])
    obtain ⟨hsh', hu'⟩ := ih (pruneBucket b.fresh.start 0 b.order ⟨work, deficit, [], 0⟩).work
      (pruneBucket b.fresh.start 0 b.order ⟨work, deficit, [], 0⟩).deficit
    simp only [pruneBuckets, mem_cons, forall_eq_or_imp]
    refine ⟨hsh.trans hsh', ?_, hu'⟩
    intro h hh w hw
    exact hu.shrink hsh' h ((rotateFresh_perm b _).mem_iff.1 hh) w hw

/-! ### Draining the buckets -/

/-- The scheduler in the middle of the refinement drain. -/
def midDrain (s : Scheduler) (pending : ℕ) (d : RefinementDrain) (bs : List Bucket)
    (hbs : bs.length = passSlots) : Scheduler :=
  { s.withRefinement d.work d.deficit bs hbs with pendingItems := pending - d.leftPending }

/-- Draining one bucket is a sequence of moves. -/
theorem drainBucket_moves (s : Scheduler) (pending : ℕ) (bs₁ bs₂ : List Bucket) (fresh : FreshRun)
    (hlen : ∀ b', (bs₁ ++ b' :: bs₂).length = passSlots) (hs : List Handle)
    (cursor : Option (UInt8 × UInt8)) (d : RefinementDrain) (hu : Unresolved d.work hs) :
    let r := drainBucket args budget hs cursor d
    Moves args.now (s.midDrain pending d (bs₁ ++ ⟨hs, cursor, fresh⟩ :: bs₂) (hlen _), d.out)
      (s.midDrain pending r.drain (bs₁ ++ ⟨r.left, r.cursor, fresh⟩ :: bs₂) (hlen _),
        r.drain.out) := by
  dsimp only
  fun_induction drainBucket args budget hs cursor d with
  | case1 | case3 => exact .refl
  | case2 h hs cursor d hg ih =>
    have hmove : Move args.now
        (s.midDrain pending d (bs₁ ++ ⟨h :: hs, cursor, fresh⟩ :: bs₂) (hlen _), d.out) _ :=
      Move.discardRefinement rfl (nil_append _).symm
        (fun w hw => by rw [midDrain, withRefinement, hg] at hw; cases hw) (hlen _)
    refine .head hmove ?_
    have hrec := ih fun k hk => hu k (mem_cons_of_mem _ hk)
    simp only [midDrain, withRefinement, hg, remove_of_none hg, nil_append, map_none,
      getD_none] at hrec ⊢
    exact hrec
  | case4 h hs cursor d w hg he ih =>
    have hmove : Move args.now
        (s.midDrain pending d (bs₁ ++ ⟨h :: hs, cursor, fresh⟩ :: bs₂) (hlen _), d.out) _ :=
      Move.send ⟨hs, some (w.tileX, w.tileY), fresh⟩ rfl rfl rfl hg (hu h mem_cons_self w hg)
        (hlen _)
    refine .head hmove ?_
    have hrec := ih fun k hk w' hw' =>
      hu k (mem_cons_of_mem _ hk) w' (Shrinks.remove d.work h k w' hw')
    -- `midDrain` counts the pending items as the drain goes
    have hpend : (if w.state = .pending then pending - d.leftPending - 1
        else pending - d.leftPending) = pending - (d.send args h w).leftPending := by
      simp only [RefinementDrain.send]
      split <;> omega
    simp only [midDrain, withRefinement, ← hpend] at hrec ⊢
    exact hrec

theorem drainBucket_shrinks (hs : List Handle) (cursor : Option (UInt8 × UInt8))
    (d : RefinementDrain) : Shrinks d.work (drainBucket args budget hs cursor d).drain.work := by
  fun_induction drainBucket args budget hs cursor d with
  | case1 | case3 h hs cursor d w hg he => exact fun k w hk => hk
  | case2 h hs cursor d hg ih => exact ih
  | case4 h hs cursor d w hg he ih => exact (Shrinks.remove d.work h).trans ih

/-- Draining the buckets is a sequence of moves. -/
theorem drainBuckets_moves (s : Scheduler) (pending : ℕ) (bs : List Bucket) :
    ∀ (done : List Bucket) (d : RefinementDrain) (hbs : (done ++ bs).length = passSlots),
      (∀ b ∈ bs, Unresolved d.work b.order) →
      Moves args.now (s.midDrain pending d (done ++ bs) hbs, d.out)
        (s.midDrain pending (drainBuckets args budget bs d).1
          (done ++ (drainBuckets args budget bs d).2)
          (by rw [List.length_append, length_drainBuckets, ← List.length_append, hbs]),
          (drainBuckets args budget bs d).1.out) := by
  induction bs with
  | nil =>
    intro done d hbs _
    exact .refl
  | cons b bs ih =>
    intro done d hbs hu
    have hlen : ∀ b', (done ++ b' :: bs).length = passSlots := by
      intro b'
      simpa using hbs
    have hfirst := drainBucket_moves args budget s pending done bs b.fresh hlen b.order b.cursor d
      (hu b mem_cons_self)
    by_cases hstop : (drainBucket args budget b.order b.cursor d).stopped
    · simp only [drainBuckets, if_pos hstop]
      exact hfirst
    · simp only [drainBuckets, if_neg hstop]
      refine hfirst.trans ?_
      let r := drainBucket args budget b.order b.cursor d
      have hrec := ih (done ++ [⟨r.left, r.cursor, b.fresh⟩]) r.drain
        (by rw [append_assoc]; exact hlen _)
        (fun c hc => (hu c (mem_cons_of_mem _ hc)).shrink
          (drainBucket_shrinks args budget b.order b.cursor d))
      simp only [append_assoc] at hrec
      exact hrec

/-! ### The whole tick -/

/-- The scheduler after the priority drain of a tick, with what it sent. -/
def priorityDrained (s : Scheduler) (budget share : ℕ) (now : Instant)
    (recoveryOwned : UInt8 → UInt8 → UInt8 → Bool) : Scheduler × List SentWork :=
  s.drainPriorityQueue (s.tickArgs now recoveryOwned) (s.splitBudget budget share).1

/-- **The priority drain and the pruning of the buckets are a sequence of moves**, -/
theorem pruned_moves (s : Scheduler) (budget share : ℕ) (now : Instant)
    (recoveryOwned : UInt8 → UInt8 → UInt8 → Bool) :
    Moves now (s, []) ((s.priorityDrained budget share now recoveryOwned).1.pruneRefinement,
      (s.priorityDrained budget share now recoveryOwned).2) := by
  let first := s.priorityDrained budget share now recoveryOwned
  have hprune := pruneOrder_moves now s.priorityOrder s [] [] rfl
  let pruned := pruneOrder s.work s.priorityOrder
  have hprio := drainPriority_moves (s.tickArgs now recoveryOwned) (s.splitBudget budget share).1
    pruned.2 { s with work := pruned.1, priorityOrder := pruned.2 }
    ⟨pruned.1, s.pendingItems, 0, []⟩ (List.Subset.refl _) rfl rfl
  have hbuckets := pruneBuckets_moves now first.1.buckets first.1 first.2 [] rfl
  exact (hprune.trans hprio).trans hbuckets

/-- **and so is the whole tick, whatever its budgets.** -/
theorem tick_moves (s : Scheduler) (budget share : ℕ) (now : Instant)
    (recoveryOwned : UInt8 → UInt8 → UInt8 → Bool) :
    Moves now (s, []) (s.tickAtWith budget share now recoveryOwned) := by
  let first := s.priorityDrained budget share now recoveryOwned
  obtain ⟨_, hu⟩ := pruneBuckets_unresolved first.1.buckets first.1.work first.1.refinementDeficit
  have hdrain := drainBuckets_moves (s.tickArgs now recoveryOwned) (s.splitBudget budget share).2
    first.1.pruneRefinement first.1.pruneRefinement.pendingItems first.1.pruneRefinement.buckets []
    ⟨first.1.pruneRefinement.work, first.1.pruneRefinement.refinementDeficit, 0, 0, first.2⟩
    first.1.pruneRefinement.sized hu
  exact (pruned_moves s budget share now recoveryOwned).trans hdrain

/-! ### What a tick leaves and sends -/

/-- Every item is one of `s`, as it was or sent. -/
def KeptOrSent (now : Instant) (s t : Scheduler) : Prop :=
  ∀ h w, t.work.get h = some w →
    ∃ v, s.work.get h = some v ∧ (w = v ∨ (v.Active ∧ w = v.sent now))

/-- Every item sent is one of `s` that was unresolved. -/
def SentFrom (now : Instant) (s : Scheduler) (out : List SentWork) : Prop :=
  ∀ e ∈ out, ∃ v, s.work.get e.handle = some v ∧ v.Active ∧ e.work = v.sent now

theorem KeptOrSent.active (hk : KeptOrSent now s t) {w : TileWork}
    (hw : t.work.get h = some w) (ha : w.Active) :
    ∃ v, s.work.get h = some v ∧ v.Active ∧ w.sent now = v.sent now := by
  obtain ⟨v, hv, rfl | ⟨hact, rfl⟩⟩ := hk h w hw
  · exact ⟨w, hv, ha, rfl⟩
  · exact ⟨v, hv, hact, rfl⟩

theorem KeptOrSent.shrink {u : Scheduler} (hk : KeptOrSent now s t)
    (hsh : Shrinks t.work u.work) : KeptOrSent now s u :=
  fun h w hw => hk h w (hsh h w hw)

theorem SentFrom.concat {out : List SentWork} {e : SentWork}
    (ho : SentFrom now s out)
    (he : ∃ v, s.work.get e.handle = some v ∧ v.Active ∧ e.work = v.sent now) :
    SentFrom now s (out ++ [e]) := by
  intro e' he'
  rcases mem_append.1 he' with he' | he'
  · exact ho e' he'
  · rw [mem_singleton.1 he']
    exact he

/-- What one move does to the items and to what is sent. -/
theorem move_items {t' : Scheduler} {out out' : List SentWork}
    (hm : Move now (t, out) (t', out')) (hk : KeptOrSent now s t) (ho : SentFrom now s out) :
    KeptOrSent now s t' ∧ SentFrom now s out' := by
  cases hm with
  | @discard _ _ _ _ h hq hdone | @discardRefinement _ _ _ _ _ _ _ h hb hq hdone hbs =>
    exact ⟨hk.shrink (Shrinks.remove t.work h), ho⟩
  | @emit _ _ h w hq hw ha =>
    refine ⟨?_, ho.concat (hk.active hw ha)⟩
    intro k w' hw'
    rw [get_modify] at hw'
    split at hw'
    · rename_i hkh
      rw [hw] at hw'
      obtain ⟨v, hv, hact, hsent⟩ := hk.active hw ha
      exact ⟨v, hkh ▸ hv, .inr ⟨hact, (some.inj hw').symm.trans hsent⟩⟩
    · exact hk k w' hw'
  | @send _ _ _ _ _ _ h w b' hb hq hb' hw ha hbs =>
    exact ⟨hk.shrink (Shrinks.remove t.work h), ho.concat (hk.active hw ha)⟩
  | arrange hb hperm hbs => exact ⟨hk, ho⟩

/-- **What a tick leaves is what was there, as it was or sent; what it sends was unresolved.** -/
theorem tick_items (s : Scheduler) (budget share : ℕ) (now : Instant)
    (recoveryOwned : UInt8 → UInt8 → UInt8 → Bool) :
    KeptOrSent now s (s.tickAtWith budget share now recoveryOwned).1 ∧
      SentFrom now s (s.tickAtWith budget share now recoveryOwned).2 := by
  refine Moves.inv (P := fun t out => KeptOrSent now s t ∧ SentFrom now s out)
    (fun hm hinv => move_items hm hinv.1 hinv.2)
    (tick_moves s budget share now recoveryOwned) ⟨?_, nofun⟩
  exact fun h w hw => ⟨w, hw, .inl rfl⟩

end Scheduler

end Ghostframe.Transport
