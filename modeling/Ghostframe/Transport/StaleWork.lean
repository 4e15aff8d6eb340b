import Ghostframe.Lib.Run
import Ghostframe.Transport.SchedulerMoves

/-!
# Superseded content is never sent

A history numbers the enqueues, bumps and supersessions of a run: `born` is the
number of the enqueue that filed the item of a handle, `newest` that of the last
enqueue of a tile pass, `retired` that of the last bump or supersession of a tile.
An item sent is stale when `retired` or `newest` has passed its `born`.

* `Items`: every unresolved item is the one its slot holds, and is current;
* `superseded_never_emitted`: on the tiles of the grid no tick returns a stale item,
  and none is sent twice as a first send.

A tile outside the grid has no slot: work enqueued for it cannot be superseded, and
`off_grid_work_outlives_bump` shows it sent after a bump.
-/

namespace Ghostframe.Transport

open Bucket List Slab SlotMap TileWork

/-- The tile of a work item. -/
def TileWork.tile (w : TileWork) : UInt8 × UInt8 := (w.tileX, w.tileY)

/-- The tile pass of a work item. -/
def TileWork.key (w : TileWork) : UInt8 × UInt8 × UInt8 := (w.tileX, w.tileY, w.passIdx)

/-! ### The queues -/

/-- What the queues hold: the handles of all items, each once, and refinement work not in flight. -/
structure Queues (prio refi : List Handle) (get : Handle → Option TileWork) : Prop where
  nodup : (prio ++ refi).Nodup
  live : ∀ h, h ∈ prio ++ refi ↔ get h ≠ none
  waiting : ∀ h ∈ refi, ∀ w, get h = some w → w.state ≠ .inFlight

/-- Items may have been resolved, but none was changed otherwise. -/
def Weakens (get get' : Handle → Option TileWork) : Prop :=
  ∀ k w', get' k = some w' → ∃ w, get k = some w ∧ w'.key = w.key ∧ (w'.Active → w' = w)

theorem Weakens.live {get get' : Handle → Option TileWork} (hw : Weakens get get') {k : Handle}
    (hk : get' k ≠ none) : get k ≠ none := by
  obtain ⟨w', hw'⟩ := Option.ne_none_iff_exists'.1 hk
  obtain ⟨w, hget, -⟩ := hw k w' hw'
  simp [hget]

namespace Queues

variable {prio p refi refi' : List Handle} {get get' : Handle → Option TileWork} {h : Handle}

theorem perm (hq : Queues prio refi get) (hp : refi'.Perm refi) : Queues prio refi' get where
  nodup := ((hp.append_left prio).nodup_iff).2 hq.nodup
  live := fun k => (hp.append_left prio).mem_iff.trans (hq.live k)
  waiting := fun k hk => hq.waiting k (hp.mem_iff.1 hk)

theorem weaken (hq : Queues prio refi get) (hw : Weakens get get')
    (hlive : ∀ k, get k ≠ none → get' k ≠ none) : Queues prio refi get' where
  nodup := hq.nodup
  live := fun k => (hq.live k).trans ⟨hlive k, hw.live⟩
  waiting := by
    intro k hk w' hw' hst
    obtain ⟨w, hget, -, hsame⟩ := hw k w' hw'
    rw [hsame (.inr hst)] at hst
    exact hq.waiting k hk w hget hst

theorem not_mem (hq : Queues prio refi get) (hfresh : get h = none) : h ∉ prio ++ refi :=
  fun hmem => (hq.live h).1 hmem hfresh

/-- A fresh handle is queued. -/
theorem push (hq : Queues prio refi get) {w : TileWork} (hfresh : get h = none)
    (hperm : (p ++ refi').Perm (h :: (prio ++ refi))) (hsub : refi' ⊆ h :: refi)
    (hst : h ∈ refi' → w.state ≠ .inFlight) :
    Queues p refi' fun k => if k = h then some w else get k where
  nodup := hperm.nodup_iff.2 (List.nodup_cons.2 ⟨hq.not_mem hfresh, hq.nodup⟩)
  live := by
    intro k
    rw [hperm.mem_iff, mem_cons, hq.live k]
    by_cases hk : k = h <;> simp [hk]
  waiting := by
    intro k hk w' hw'
    by_cases hkh : k = h
    · rw [if_pos hkh] at hw'
      exact Option.some.inj hw' ▸ hst (hkh ▸ hk)
    · rw [if_neg hkh] at hw'
      exact hq.waiting k ((mem_cons.1 (hsub hk)).resolve_left hkh) w' hw'

/-- A handle leaves its queue, and its item the slab. -/
theorem pop (hq : Queues prio refi get) (hperm : (prio ++ refi).Perm (h :: (p ++ refi')))
    (hsub : refi' ⊆ refi) : Queues p refi' fun k => if k = h then none else get k := by
  obtain ⟨hnot, hnodup⟩ := nodup_cons.1 (hperm.nodup_iff.1 hq.nodup)
  refine ⟨hnodup, ?_, ?_⟩
  · intro k
    have hmem := hperm.mem_iff (a := k)
    rw [hq.live k, mem_cons] at hmem
    by_cases hk : k = h
    · simp [hk, hnot]
    · simpa [hk] using hmem.symm
  · intro k hk w hw
    split at hw
    · cases hw
    · exact hq.waiting k (hsub hk) w hw

/-- Changing a priority item leaves the queued refinement work as it is. -/
theorem modifyPrio (hq : Queues prio refi get) (hmem : h ∈ prio) (f : TileWork → TileWork) :
    Queues prio refi fun k => if k = h then (get h).map f else get k where
  nodup := hq.nodup
  live := by
    intro k
    rw [hq.live k]
    by_cases hk : k = h <;> simp [hk]
  waiting := by
    intro k hk w hw
    have hkh : k ≠ h := by
      rintro rfl
      exact disjoint_of_nodup_append hq.nodup hmem hk
    rw [if_neg hkh] at hw
    exact hq.waiting k hk w hw

end Queues

/-! ### The history of a run -/

/-- The number of the last event, and of the events that made or retired each item. -/
structure History where
  clock : ℕ := 0
  born : Handle → ℕ := fun _ => 0
  retired : UInt8 × UInt8 → ℕ := fun _ => 0
  newest : UInt8 × UInt8 × UInt8 → ℕ := fun _ => 0

variable (g : History)

/-- An item is filed under a handle. -/
def History.file (h : Handle) (w : TileWork) : History :=
  { g with
    clock := g.clock + 1
    born := Function.update g.born h (g.clock + 1)
    newest := Function.update g.newest w.key (g.clock + 1) }

/-- The content of a tile is superseded. -/
def History.retire (tile : UInt8 × UInt8) : History :=
  { g with
    clock := g.clock + 1
    retired := Function.update g.retired tile (g.clock + 1) }

/-- The content of this item is the tile's latest: filed after the tile's last bump or
supersession, and not replaced since. -/
def History.Current (h : Handle) (w : TileWork) : Prop :=
  g.retired w.tile < g.born h ∧ g.newest w.key = g.born h

/-- What is known of the items, over the handles the slots hold (`handle`), the items
(`get`) and the numbers of those sent for the first time (`fired`). -/
structure Items (g : History) (handle : UInt8 → UInt8 → UInt8 → Option Handle)
    (get : Handle → Option TileWork) (fired : List ℕ) : Prop where
  held : ∀ h w, get h = some w → w.Active → handle w.tileX w.tileY w.passIdx = some h
  current : ∀ h w, get h = some w → w.Active → g.Current h w
  unsent : ∀ h w, get h = some w → w.state = .pending → g.born h ∉ fired
  inj : ∀ h k, get h ≠ none → get k ≠ none → g.born h = g.born k → h = k
  bornLe : ∀ h, get h ≠ none → g.born h ≤ g.clock
  retiredLe : ∀ tile, g.retired tile ≤ g.clock
  firedLe : ∀ n ∈ fired, n ≤ g.clock
  firedNodup : fired.Nodup

namespace Items

variable {g : History} {handle : UInt8 → UInt8 → UInt8 → Option Handle}
  {get get' : Handle → Option TileWork} {fired : List ℕ} {h : Handle} {w : TileWork}

theorem weaken (hi : Items g handle get fired) (hw : Weakens get get') :
    Items g handle get' fired := by
  refine { hi with held := ?_, current := ?_, unsent := ?_, inj := ?_, bornLe := ?_ }
  · intro k w' hw' ha
    obtain ⟨w, hget, -, hsame⟩ := hw k w' hw'
    obtain rfl := hsame ha
    exact hi.held k w' hget ha
  · intro k w' hw' ha
    obtain ⟨w, hget, -, hsame⟩ := hw k w' hw'
    obtain rfl := hsame ha
    exact hi.current k w' hget ha
  · intro k w' hw' hst
    obtain ⟨w, hget, -, hsame⟩ := hw k w' hw'
    rw [hsame (.inl hst)] at hst
    exact hi.unsent k w hget hst
  · exact fun k l hk hl => hi.inj k l (hw.live hk) (hw.live hl)
  · exact fun k hk => hi.bornLe k (hw.live hk)

/-- A pending item is filed where no unresolved one is. -/
theorem insert {m : SlotMap} (hi : Items g m.handle get fired)
    (hgrid : m.InGrid w.tileX w.tileY) (hpass : w.passIdx.toNat < passSlots)
    (hfree : ∀ k v, get k = some v → v.Active → v.key ≠ w.key) :
    Items (g.file h w) (m.setHandle w.tileX w.tileY w.passIdx (some h)).handle
      (fun k => if k = h then some w else get k) fired := by
  have hborn : ∀ k, k ≠ h → (g.file h w).born k = g.born k :=
    fun k hk => Function.update_of_ne hk _ _
  have hself : (g.file h w).born h = g.clock + 1 := Function.update_self _ _ _
  have hold : ∀ k, get k ≠ none → g.born k ≠ g.clock + 1 := by
    intro k hk
    have := hi.bornLe k hk
    omega
  refine ⟨?_, ?_, ?_, ?_, ?_, ?_, ?_, hi.firedNodup⟩
  · intro k v hv ha
    rw [handle_setHandle hgrid hpass]
    by_cases hk : k = h
    · rw [if_pos hk] at hv
      obtain rfl := Option.some.inj hv
      rw [if_pos ⟨rfl, rfl, rfl⟩, hk]
    · rw [if_neg hk] at hv
      rw [if_neg, hi.held k v hv ha]
      rintro ⟨hx, hy, hp⟩
      exact hfree k v hv ha (by rw [key, key, hx, hy, hp])
  · intro k v hv ha
    by_cases hk : k = h
    · rw [if_pos hk] at hv
      obtain rfl := Option.some.inj hv
      rw [hk]
      refine ⟨?_, ?_⟩
      · rw [hself]
        exact Nat.lt_succ_of_le (hi.retiredLe w.tile)
      · rw [hself]
        exact Function.update_self _ _ _
    · rw [if_neg hk] at hv
      obtain ⟨hlt, hnew⟩ := hi.current k v hv ha
      refine ⟨?_, ?_⟩
      · rw [hborn k hk]
        exact hlt
      · rw [hborn k hk, ← hnew]
        exact Function.update_of_ne (hfree k v hv ha) _ _
  · intro k v hv hst
    by_cases hk : k = h
    · rw [hk, hself]
      intro hmem
      have := hi.firedLe _ hmem
      omega
    · rw [if_neg hk] at hv
      rw [hborn k hk]
      exact hi.unsent k v hv hst
  · intro k l hk hl heq
    by_cases hkh : k = h <;> by_cases hlh : l = h
    · rw [hkh, hlh]
    · rw [if_neg hlh] at hl
      rw [hkh, hself, hborn l hlh] at heq
      exact absurd heq.symm (hold l hl)
    · rw [if_neg hkh] at hk
      rw [hlh, hself, hborn k hkh] at heq
      exact absurd heq (hold k hk)
    · rw [if_neg hkh] at hk
      rw [if_neg hlh] at hl
      rw [hborn k hkh, hborn l hlh] at heq
      exact hi.inj k l hk hl heq
  · intro k hk
    by_cases hkh : k = h
    · rw [hkh, hself]
      exact le_rfl
    · rw [if_neg hkh] at hk
      rw [hborn k hkh]
      exact Nat.le_succ_of_le (hi.bornLe k hk)
  · exact fun tile => Nat.le_succ_of_le (hi.retiredLe tile)
  · exact fun n hn => Nat.le_succ_of_le (hi.firedLe n hn)

/-- A tile without unresolved items is superseded. -/
theorem retire (hi : Items g handle get fired) {tile : UInt8 × UInt8}
    (hfree : ∀ k v, get k = some v → v.Active → v.tile ≠ tile) :
    Items (g.retire tile) handle get fired where
  held := hi.held
  current := by
    intro k v hv ha
    obtain ⟨hlt, hnew⟩ := hi.current k v hv ha
    refine ⟨?_, hnew⟩
    have hret : (g.retire tile).retired v.tile = g.retired v.tile :=
      Function.update_of_ne (hfree k v hv ha) _ _
    rw [hret]
    exact hlt
  unsent := hi.unsent
  inj := hi.inj
  bornLe := fun k hk => Nat.le_succ_of_le (hi.bornLe k hk)
  retiredLe := by
    intro t
    by_cases ht : t = tile
    · rw [ht]
      exact (Function.update_self tile (g.clock + 1) g.retired).le
    · have hret : (g.retire tile).retired t = g.retired t := Function.update_of_ne ht _ _
      rw [hret]
      exact Nat.le_succ_of_le (hi.retiredLe t)
  firedLe := fun n hn => Nat.le_succ_of_le (hi.firedLe n hn)
  firedNodup := hi.firedNodup

/-- An unresolved item is sent: it is no longer pending, or gone. -/
theorem send (hi : Items g handle get fired) (hw : get h = some w) (ha : w.Active)
    (hsame : ∀ k v', get' k = some v' →
      (k ≠ h ∧ get k = some v') ∨ (k = h ∧ v'.key = w.key ∧ v'.state ≠ .pending)) :
    Items g handle get' (fired ++ if w.state = .pending then [g.born h] else []) := by
  have hlive : ∀ k, get' k ≠ none → get k ≠ none := by
    intro k hk
    obtain ⟨v, hv⟩ := Option.ne_none_iff_exists'.1 hk
    rcases hsame k v hv with ⟨-, hget⟩ | ⟨rfl, -⟩
    · simp [hget]
    · simp [hw]
  have hkey : ∀ v' : TileWork, v'.key = w.key →
      v'.tileX = w.tileX ∧ v'.tileY = w.tileY ∧ v'.passIdx = w.passIdx := by
    intro v' hv'
    simpa [key] using hv'
  refine { hi with held := ?_, current := ?_, unsent := ?_, inj := ?_, bornLe := ?_,
                   firedLe := ?_, firedNodup := ?_ }
  · intro k v hv hact
    rcases hsame k v hv with ⟨-, hget⟩ | ⟨rfl, hk, -⟩
    · exact hi.held k v hget hact
    · obtain ⟨hx, hy, hp⟩ := hkey v hk
      rw [hx, hy, hp]
      exact hi.held k w hw ha
  · intro k v hv hact
    rcases hsame k v hv with ⟨-, hget⟩ | ⟨rfl, hk, -⟩
    · exact hi.current k v hget hact
    · obtain ⟨hx, hy, hp⟩ := hkey v hk
      have hcur := hi.current k w hw ha
      rw [History.Current, tile, key, hx, hy, hp]
      exact hcur
  · intro k v hv hst
    rcases hsame k v hv with ⟨hkh, hget⟩ | ⟨-, -, hne⟩
    · intro hmem
      rcases mem_append.1 hmem with hmem | hmem
      · exact hi.unsent k v hget hst hmem
      · split at hmem
        · have hborn : g.born k = g.born h := mem_singleton.1 hmem
          exact hkh (hi.inj k h (by simp [hget]) (by simp [hw]) hborn)
        · cases hmem
    · exact absurd hst hne
  · exact fun k l hk hl => hi.inj k l (hlive k hk) (hlive l hl)
  · exact fun k hk => hi.bornLe k (hlive k hk)
  · intro n hn
    rcases mem_append.1 hn with hn | hn
    · exact hi.firedLe n hn
    · split at hn
      · rw [mem_singleton.1 hn]
        exact hi.bornLe h (by simp [hw])
      · cases hn
  · split
    · rename_i hst
      refine List.Nodup.append hi.firedNodup (nodup_singleton _) ?_
      exact disjoint_singleton.2 (hi.unsent h w hw hst)
    · rw [append_nil]
      exact hi.firedNodup

theorem empty (hget : ∀ k, get k = none) (hretired : ∀ tile, g.retired tile ≤ g.clock)
    (hfired : ∀ n ∈ fired, n ≤ g.clock) (hnodup : fired.Nodup) : Items g handle get fired := by
  constructor <;> simp_all

end Items

/-! ### The scheduler and its history -/

/-- The handles in the buckets. -/
def Scheduler.refinementHandles (s : Scheduler) : List Handle := s.buckets.flatMap Bucket.order

/-- The queues of a scheduler, over its slab. -/
abbrev Scheduler.Queued (s : Scheduler) : Prop :=
  Queues s.priorityOrder s.refinementHandles s.work.get

/-- The scheduler agrees with its history. -/
structure Tracked (g : History) (s : Scheduler) (fired : List ℕ) : Prop where
  queues : s.Queued
  items : Items g s.slots.handle s.work.get fired

/-- The numbers of the items sent for the first time. -/
def History.firstSends (out : List SentWork) : List ℕ :=
  (out.filter fun e => !e.retry).map fun e => g.born e.handle

/-- Every item sent was current. -/
def History.AllCurrent (out : List SentWork) : Prop :=
  ∀ e ∈ out, g.Current e.handle e.work

namespace Scheduler

variable {g : History} {s s' : Scheduler} {fired : List ℕ} {out out' : List SentWork}

variable (work : Slab TileWork) (x : UInt8) {now : Instant} (y : UInt8)

theorem slab_remove_get (h : Handle) :
    (work.remove h).get = fun k => if k = h then none else work.get k := by
  funext k
  exact get_remove work h k

theorem slab_modify_get (h : Handle) (f : TileWork → TileWork) :
    (work.modify h f).get = fun k => if k = h then (work.get h).map f else work.get k := by
  funext k
  exact get_modify work h f k

theorem slab_insert_get (w : TileWork) :
    (work.insert w).1.get = fun k => if k = (work.insert w).2 then some w else work.get k := by
  funext k
  exact get_insert work w k

/-- Taking an entry out of a bucket takes it out of the refinement handles. -/
theorem refinementHandles_middle {bs₁ bs₂ : List Bucket} {b b' : Bucket} {l₁ l₂ : List Handle}
    {h : Handle} (hb : s.buckets = bs₁ ++ b :: bs₂) (hq : b.order = l₁ ++ h :: l₂)
    (hb' : b'.order = l₁ ++ l₂) :
    s.refinementHandles.Perm (h :: (bs₁ ++ b' :: bs₂).flatMap order) := by
  unfold refinementHandles
  rw [hb, flatMap_append, flatMap_append, flatMap_cons, flatMap_cons, hq, hb']
  have hin : (l₁ ++ h :: l₂ ++ bs₂.flatMap order).Perm
      (h :: (l₁ ++ l₂ ++ bs₂.flatMap order)) :=
    perm_middle.append_right _
  exact (hin.append_left _).trans perm_middle

theorem firstSends_concat (g : History) (out : List SentWork) (e : SentWork) :
    g.firstSends (out ++ [e]) = g.firstSends out ++ if e.retry then [] else [g.born e.handle] := by
  unfold History.firstSends
  cases hr : e.retry <;> simp [hr]

theorem allCurrent_concat {e : SentWork} (hall : g.AllCurrent out)
    (he : g.Current e.handle e.work) : g.AllCurrent (out ++ [e]) := by
  intro e' he'
  rcases mem_append.1 he' with he' | he'
  · exact hall e' he'
  · rw [mem_singleton.1 he']
    exact he

/-- Taking an entry out of a bucket, and its item out of the slab. -/
theorem pop_bucket {bs₁ bs₂ : List Bucket} {b b' : Bucket} {l r : List Handle} {h : Handle}
    (hq : s.Queued) (hb : s.buckets = bs₁ ++ b :: bs₂) (hord : b.order = l ++ h :: r)
    (hb' : b'.order = l ++ r) :
    Queues s.priorityOrder ((bs₁ ++ b' :: bs₂).flatMap order) (s.work.remove h).get := by
  have hperm := refinementHandles_middle hb hord hb'
  rw [slab_remove_get]
  exact hq.pop ((hperm.append_left _).trans perm_middle)
    fun k hk => hperm.mem_iff.2 (mem_cons_of_mem _ hk)

/-- What one move of a tick does to the queues. -/
theorem move_queues (hm : Move now (s, out) (s', out')) (hq : s.Queued) : s'.Queued := by
  cases hm with
  | @discard _ _ l₁ l₂ h hord hdone =>
    rw [Queued, hord] at hq
    have hpop := hq.pop (perm_middle.append_right _) (List.Subset.refl _)
    rw [← slab_remove_get] at hpop
    exact hpop
  | @emit _ _ h w hmem hw ha =>
    have hsent := hq.modifyPrio hmem fun w => w.sent now
    rw [← slab_modify_get] at hsent
    exact hsent
  | discardRefinement hb hord hdone hbs => exact pop_bucket hq hb hord rfl
  | send b' hb hord hb' hw ha hbs => exact pop_bucket (l := []) hq hb hord hb'
  | @arrange _ _ bs₁ bs₂ b b' hb hperm hbs =>
    refine hq.perm ?_
    unfold refinementHandles
    rw [hb]
    simp only [withRefinement, flatMap_append, flatMap_cons]
    exact (hperm.append_right _).append_left _

/-- **What one move of a tick preserves.** -/
theorem move_tracked (hm : Move now (s, out) (s', out'))
    (ht : Tracked g s (fired ++ g.firstSends out)) (hall : g.AllCurrent out) :
    Tracked g s' (fired ++ g.firstSends out') ∧ g.AllCurrent out' := by
  have hqueues := move_queues hm ht.queues
  cases hm with
  | @discard _ _ l₁ l₂ h hq hdone | @discardRefinement _ _ bs₁ bs₂ b l₁ l₂ h hb hq hdone hbs =>
    refine ⟨⟨hqueues, ht.items.weaken ?_⟩, hall⟩
    intro k w' hw'
    exact ⟨w', Shrinks.remove s.work h k w' hw', rfl, fun _ => rfl⟩
  | @emit _ _ h w hq hw ha =>
    refine ⟨⟨hqueues, ?_⟩, allCurrent_concat hall (ht.items.current h w hw ha)⟩
    have hretry : (if decide (w.state = .inFlight) then [] else [g.born h]) =
        if w.state = .pending then [g.born h] else [] := by
      rcases ha with hst | hst <;> simp [hst]
    rw [firstSends_concat, ← append_assoc, hretry]
    refine ht.items.send hw ha ?_
    intro k v' hv'
    rw [get_modify] at hv'
    by_cases hk : k = h
    · rw [if_pos hk, hw] at hv'
      obtain rfl := Option.some.inj hv'
      exact .inr ⟨hk, rfl, by simp [sent]⟩
    · rw [if_neg hk] at hv'
      exact .inl ⟨hk, hv'⟩
  | @send _ _ bs₁ bs₂ b l₂ h w b' hb hq hb' hw ha hbs =>
    have hq' : b.order = [] ++ h :: l₂ := hq
    have hmem : h ∈ s.refinementHandles :=
      (refinementHandles_middle hb hq' hb').mem_iff.2 mem_cons_self
    -- queued refinement work is not in flight, so what leaves is pending
    have hst : w.state = .pending := ha.resolve_right (ht.queues.waiting h hmem w hw)
    refine ⟨⟨hqueues, ?_⟩, allCurrent_concat hall (ht.items.current h w hw ha)⟩
    have hsame : ∀ k v', (s.work.remove h).get k = some v' →
        (k ≠ h ∧ s.work.get k = some v') ∨ (k = h ∧ v'.key = w.key ∧ v'.state ≠ .pending) := by
      intro k v' hv'
      rw [get_remove] at hv'
      by_cases hk : k = h
      · rw [if_pos hk] at hv'
        cases hv'
      · rw [if_neg hk] at hv'
        exact .inl ⟨hk, hv'⟩
    have hsend := ht.items.send hw ha hsame
    rw [if_pos hst, append_assoc] at hsend
    rw [firstSends_concat]
    exact hsend
  | arrange hb hperm hbs => exact ⟨⟨hqueues, ht.items⟩, hall⟩

/-- **What a tick preserves, and what it sends.** -/
theorem tick_tracked (budget share : ℕ) (now : Instant)
    (recoveryOwned : UInt8 → UInt8 → UInt8 → Bool) (ht : Tracked g s fired) :
    Tracked g (s.tickAtWith budget share now recoveryOwned).1
        (fired ++ g.firstSends (s.tickAtWith budget share now recoveryOwned).2) ∧
      g.AllCurrent (s.tickAtWith budget share now recoveryOwned).2 := by
  refine Moves.inv
    (P := fun t out => Tracked g t (fired ++ g.firstSends out) ∧ g.AllCurrent out)
    (fun hm hinv => move_tracked hm hinv.1 hinv.2)
    (tick_moves s budget share now recoveryOwned) ⟨?_, ?_⟩
  · simpa [History.firstSends] using ht
  · exact nofun

/-! ### The other operations -/

theorem weakens_retirePasses (s : Scheduler) (x y : UInt8) (ps : List UInt8) :
    Weakens s.work.get (s.retirePasses x y ps).work.get := by
  intro k w' hw'
  rw [get_retirePasses] at hw'
  split at hw'
  · obtain ⟨w, hget, rfl⟩ := Option.map_eq_some_iff.1 hw'
    refine ⟨w, hget, ?_, fun ha => absurd ha w.supersede_not_active⟩
    unfold supersede
    split <;> rfl
  · exact ⟨w', hw', rfl, fun _ => rfl⟩

theorem live_retirePasses (s : Scheduler) (x y : UInt8) (ps : List UInt8) (k : Handle)
    (hk : s.work.get k ≠ none) : (s.retirePasses x y ps).work.get k ≠ none := by
  rw [get_retirePasses]
  split
  · simpa using hk
  · exact hk

theorem retirePasses_queues (ps : List UInt8) (hq : s.Queued) : (s.retirePasses x y ps).Queued := by
  have hqueues := hq.weaken (weakens_retirePasses s x y ps) (live_retirePasses s x y ps)
  obtain ⟨work, n, he⟩ := retirePasses_eq s x y ps
  rw [he] at hqueues ⊢
  exact hqueues

theorem retirePasses_tracked (ps : List UInt8) (ht : Tracked g s fired) :
    Tracked g (s.retirePasses x y ps) fired := by
  have hitems := ht.items.weaken (weakens_retirePasses s x y ps)
  refine ⟨retirePasses_queues x y ps ht.queues, ?_⟩
  rw [slots_retirePasses]
  exact hitems

/-- No unresolved item of a superseded pass is left. -/
theorem retirePasses_free {x y : UInt8} {ps : List UInt8} {k : Handle} {v : TileWork}
    (hv : (s.retirePasses x y ps).work.get k = some v) (ha : v.Active)
    (held : s.work.get k = some v → s.slots.handle v.tileX v.tileY v.passIdx = some k)
    (hp : v.passIdx ∈ ps) : v.tile ≠ (x, y) := by
  intro htile
  obtain ⟨w, hget, -, hsame⟩ := weakens_retirePasses s x y ps k v hv
  obtain rfl := hsame ha
  obtain ⟨hx, hy⟩ := Prod.mk.inj htile
  have hheld := held hget
  rw [hx, hy] at hheld
  have hex : ∃ p ∈ ps, s.slots.handle x y p = some k := ⟨v.passIdx, hp, hheld⟩
  rw [get_retirePasses, if_pos hex, hget] at hv
  exact v.supersede_not_active (by rw [Option.some.inj hv]; exact ha)

/-- Nor one of the pass an item is filed under. -/
theorem file_free {w v : TileWork} {k : Handle}
    (hv : (s.retirePasses w.tileX w.tileY [w.passIdx]).work.get k = some v) (ha : v.Active)
    (held : s.work.get k = some v → s.slots.handle v.tileX v.tileY v.passIdx = some k) :
    v.key ≠ w.key := by
  intro hkey
  obtain ⟨hx, hy, hp⟩ : v.tileX = w.tileX ∧ v.tileY = w.tileY ∧ v.passIdx = w.passIdx := by
    simpa [key] using hkey
  exact retirePasses_free hv ha held (hp ▸ mem_singleton_self _)
    (by rw [tile, hx, hy])

theorem tracked_withSlots {m : SlotMap} (ht : Tracked g s fired)
    (hm : m.handle = s.slots.handle) : Tracked g { s with slots := m } fired :=
  ⟨ht.queues, hm ▸ ht.items⟩

theorem retireTile_tracked {x y : UInt8} (ht : Tracked g s fired) :
    Tracked (g.retire (x, y)) (s.retirePasses x y passIndices) fired := by
  have ht' := retirePasses_tracked x y passIndices ht
  refine ⟨ht'.queues, ht'.items.retire ?_⟩
  intro k v hv ha
  refine retirePasses_free hv ha (fun hget => ht.items.held k v hget ha) ?_
  -- an unresolved item is held by a slot, so its pass is one of the slot's
  exact (mem_passIndices _).2 (inGrid_of_handle (ht'.items.held k v hv ha)).2

/-- Storing an item: the part of filing after the supersession. -/
def store (t : Scheduler) (w : TileWork) : Scheduler × Handle :=
  ({ t with
      work := (t.work.insert w).1
      pendingItems := t.pendingItems + 1
      slots := t.slots.setHandle w.tileX w.tileY w.passIdx (some (t.work.insert w).2) },
    (t.work.insert w).2)

theorem file_eq (s : Scheduler) (w : TileWork) :
    s.file w = (s.retirePasses w.tileX w.tileY [w.passIdx]).store w := rfl

variable {w : TileWork}

theorem store_items (ht : Tracked g s fired)
    (hgrid : s.slots.InGrid w.tileX w.tileY) (hpass : w.passIdx.toNat < passSlots)
    (hfree : ∀ k v, s.work.get k = some v → v.Active → v.key ≠ w.key) :
    Items (g.file (s.store w).2 w) (s.store w).1.slots.handle (s.store w).1.work.get fired := by
  have hins := ht.items.insert (h := (s.work.insert w).2) hgrid hpass hfree
  rw [← slab_insert_get] at hins
  exact hins

theorem file_items (ht : Tracked g s fired)
    (hgrid : s.slots.InGrid w.tileX w.tileY) (hpass : w.passIdx.toNat < passSlots) :
    Items (g.file (s.file w).2 w) (s.file w).1.slots.handle (s.file w).1.work.get fired := by
  have ht' := retirePasses_tracked w.tileX w.tileY [w.passIdx] ht
  rw [file_eq]
  refine store_items ht' ((slots_retirePasses _ _ _ _).symm ▸ hgrid) hpass ?_
  intro k v hv ha
  exact file_free hv ha fun hget => ht.items.held k v hget ha

theorem file_queues (hq : s.Queued) :
    ∃ t : Scheduler, t.priorityOrder = s.priorityOrder ∧ t.buckets = s.buckets ∧ t.Queued ∧
      s.file w = t.store w := by
  have hqueues := retirePasses_queues w.tileX w.tileY [w.passIdx] hq
  obtain ⟨work, n, he⟩ := retirePasses_eq s w.tileX w.tileY [w.passIdx]
  rw [he] at hqueues
  exact ⟨{ s with work := work, pendingItems := n }, rfl, rfl, hqueues, by rw [file_eq, he]⟩

/-- `enqueue_at` queues a fresh handle. -/
theorem enqueueAt_queues (hq : s.Queued) : (s.enqueueAt w now).Queued := by
  obtain ⟨t, -, -, hqueues, hfile⟩ := file_queues (w := w.queued now) hq
  have hfresh := get_insert_fresh t.work (w.queued now)
  have hpush := hqueues.push (p := t.priorityOrder ++ [_]) (w := w.queued now) hfresh
    (by rw [append_assoc]; exact perm_middle) (subset_cons_self _ _)
    (fun hmem => absurd (mem_append_right _ hmem) (hqueues.not_mem hfresh))
  rw [← slab_insert_get] at hpush
  unfold enqueueAt
  rw [hfile]
  exact hpush

theorem enqueueAt_tracked (ht : Tracked g s fired)
    (hgrid : s.slots.InGrid w.tileX w.tileY) (hpass : w.passIdx.toNat < passSlots) :
    Tracked (g.file (s.file (w.queued now)).2 (w.queued now)) (s.enqueueAt w now) fired :=
  ⟨enqueueAt_queues ht.queues, file_items (w := w.queued now) ht hgrid hpass⟩

/-- Pushing into a bucket adds one refinement handle. -/
theorem flatMap_push_perm (h : Handle) (tile : UInt8 × UInt8) (bs : List Bucket) :
    ∀ i < bs.length, ((bs.modify i fun b => b.push h tile).flatMap order).Perm
      (h :: bs.flatMap order) := by
  induction bs with
  | nil => exact nofun
  | cons b bs ih =>
    intro i hi
    cases i with
    | zero =>
      simp only [List.modify_zero_cons, List.flatMap_cons, Bucket.push, List.append_assoc]
      exact List.perm_middle
    | succ i =>
      exact ((ih i (by simpa using hi)).append_left _).trans perm_middle

/-- Filing refinement work queues a fresh handle. -/
theorem fileRefinement_queues (hst : w.state = .pending) (hq : s.Queued) :
    (s.fileRefinement w).Queued := by
  obtain ⟨t, -, -, hqueues, hfile⟩ := file_queues (w := w) hq
  have hlt : bucketOf w.passIdx < t.buckets.length := by
    rw [t.sized]
    exact lt_of_le_of_lt (min_le_right _ _) (by decide)
  have hperm := flatMap_push_perm (t.work.insert w).2 (w.tileX, w.tileY) t.buckets _ hlt
  have hpush := hqueues.push (w := w) (get_insert_fresh t.work w)
    ((hperm.append_left _).trans perm_middle) hperm.subset (by simp [hst])
  rw [← slab_insert_get] at hpush
  unfold fileRefinement
  rw [hfile]
  exact hpush

theorem fileRefinement_tracked (hst : w.state = .pending)
    (ht : Tracked g s fired) (hgrid : s.slots.InGrid w.tileX w.tileY)
    (hpass : w.passIdx.toNat < passSlots) :
    Tracked (g.file (s.file w).2 w) (s.fileRefinement w) fired :=
  ⟨fileRefinement_queues hst ht.queues, file_items ht hgrid hpass⟩

theorem weakens_markAcked (s : Scheduler) (x y gen p : UInt8) :
    Weakens s.work.get (s.markAcked x y gen p).work.get := by
  intro k w' hw'
  unfold markAcked at hw'
  split at hw'
  · exact ⟨w', hw', rfl, fun _ => rfl⟩
  · simp only [get_modify] at hw'
    split at hw'
    · rename_i hk
      obtain ⟨w, hget, rfl⟩ := Option.map_eq_some_iff.1 hw'
      refine ⟨w, hk ▸ hget, ?_⟩
      split
      · exact ⟨rfl, by simp [TileWork.Active]⟩
      · exact ⟨rfl, fun _ => rfl⟩
    · exact ⟨w', hw', rfl, fun _ => rfl⟩

/-- `mark_acked` leaves the queues. -/
theorem markAcked_queues (gen p : UInt8) (hq : s.Queued) : (s.markAcked x y gen p).Queued := by
  have hweak := weakens_markAcked s x y gen p
  unfold markAcked at hweak ⊢
  split
  · exact hq
  · rename_i h hh
    simp only [hh] at hweak
    refine hq.weaken hweak ?_
    intro k hk
    rw [get_modify]
    split
    · rename_i hkh
      simpa [hkh] using hk
    · exact hk

/-- `mark_acked` resolves items only. -/
theorem markAcked_tracked (gen p : UInt8) (ht : Tracked g s fired) :
    Tracked g (s.markAcked x y gen p) fired := by
  have hitems := ht.items.weaken (weakens_markAcked s x y gen p)
  refine ⟨markAcked_queues x y gen p ht.queues, ?_⟩
  unfold markAcked at hitems ⊢
  split
  · exact ht.items
  · rename_i h hh
    simpa only [hh] using hitems

theorem refinementHandles_empty {t : Scheduler}
    (hbuckets : t.buckets = List.replicate passSlots {}) : t.refinementHandles = [] := by
  rw [refinementHandles, hbuckets]
  rfl

theorem empty_queued {t : Scheduler} (hwork : ∀ k, t.work.get k = none)
    (hprio : t.priorityOrder = []) (hbuckets : t.buckets = List.replicate passSlots {}) :
    t.Queued := by
  rw [Queued, hprio, refinementHandles_empty hbuckets]
  exact ⟨nodup_nil, by simp [hwork], nofun⟩

theorem empty_tracked {t : Scheduler} (hwork : ∀ k, t.work.get k = none)
    (hprio : t.priorityOrder = []) (hbuckets : t.buckets = List.replicate passSlots {})
    (hretired : ∀ tile, g.retired tile ≤ g.clock) (hfired : ∀ n ∈ fired, n ≤ g.clock)
    (hnodup : fired.Nodup) : Tracked g t fired :=
  ⟨empty_queued hwork hprio hbuckets, .empty hwork hretired hfired hnodup⟩

theorem inGrid_fileRefinement (s : Scheduler) (w : TileWork) (x y : UInt8) :
    (s.fileRefinement w).slots.InGrid x y ↔ s.slots.InGrid x y := by
  have hslots : (s.fileRefinement w).slots =
      (s.retirePasses w.tileX w.tileY [w.passIdx]).slots.setHandle w.tileX w.tileY w.passIdx
        (some (s.file w).2) := rfl
  obtain ⟨work, n, he⟩ := retirePasses_eq s w.tileX w.tileY [w.passIdx]
  rw [hslots, he]
  simp [SlotMap.InGrid, setHandle]

theorem inGrid_rest {ws : List TileWork} (hin : ∀ v ∈ w :: ws,
    s.slots.InGrid v.tileX v.tileY ∧ v.passIdx.toNat < passSlots) : ∀ v ∈ ws,
    (s.fileRefinement w).slots.InGrid v.tileX v.tileY ∧ v.passIdx.toNat < passSlots := by
  intro v hv
  obtain ⟨hg, hp⟩ := hin v (mem_cons_of_mem _ hv)
  exact ⟨(inGrid_fileRefinement s w v.tileX v.tileY).2 hg, hp⟩

end Scheduler

/-! ### Runs -/

/-- An operation of the scheduler. -/
inductive SchedOp
  | enqueueAt (w : TileWork) (now : Instant)
  | enqueueRefinementWorkAt (w : TileWork) (now : Instant)
  | enqueueRefinementAt (x y gen : UInt8) (passes : List Bytes) (now : Instant)
  | enqueueRefinementSubsetAt (x y gen : UInt8) (mask : UInt16) (payloads : List Bytes)
      (now : Instant)
  | supersedePendingForTile (x y : UInt8)
  | bumpGeneration (x y : UInt8)
  | bumpGenerationCollecting (x y : UInt8)
  | markAcked (x y gen p : UInt8)
  | recordCdf53Ack (x y gen p : UInt8)
  | frameLabel (x y : UInt8) (seq : UInt32)
  | tickAtWith (budget share : ℕ) (now : Instant) (recoveryOwned : UInt8 → UInt8 → UInt8 → Bool)
  | setRetryAfter (d : Duration)
  | setItemOverhead (bytes : ℕ)
  | clear
  | resize (cols rows : ℕ)

namespace SchedOp

/-- The items an operation files. -/
def items : SchedOp → List TileWork
  | enqueueAt w now => [w.queued now]
  | enqueueRefinementWorkAt w now => [w.queued now]
  | enqueueRefinementAt x y gen passes now => Scheduler.refinementItems x y gen passes now
  | enqueueRefinementSubsetAt x y gen mask payloads now =>
    Scheduler.subsetItems x y gen mask payloads now
  | _ => []

/-- The scheduler after an operation. -/
def apply (s : Scheduler) : SchedOp → Scheduler
  | enqueueAt w now => s.enqueueAt w now
  | enqueueRefinementWorkAt w now => s.enqueueRefinementWorkAt w now
  | enqueueRefinementAt x y gen passes now => s.enqueueRefinementAt x y gen passes now
  | enqueueRefinementSubsetAt x y gen mask payloads now =>
    s.enqueueRefinementSubsetAt x y gen mask payloads now
  | supersedePendingForTile x y => s.supersedePendingForTile x y
  | bumpGeneration x y => (s.bumpGeneration x y).1
  | bumpGenerationCollecting x y => (s.bumpGenerationCollecting x y).1
  | markAcked x y gen p => s.markAcked x y gen p
  | recordCdf53Ack x y gen p => s.recordCdf53Ack x y gen p
  | frameLabel x y seq => (s.frameLabel x y seq).1
  | tickAtWith budget share now recoveryOwned => (s.tickAtWith budget share now recoveryOwned).1
  | setRetryAfter d => { s with retryAfter := d }
  | setItemOverhead bytes => { s with itemOverhead := bytes }
  | clear => s.clear
  | resize cols rows => s.resize cols rows

/-- The work an operation enqueues is for tiles of the grid, and for their passes. -/
def WithinGrid (s : Scheduler) (op : SchedOp) : Prop :=
  ∀ item ∈ op.items, s.slots.InGrid item.tileX item.tileY ∧ item.passIdx.toNat < passSlots

instance (s : Scheduler) (op : SchedOp) : Decidable (WithinGrid s op) :=
  inferInstanceAs (Decidable (∀ item ∈ op.items, _))

end SchedOp

/-- One item a tick returned: the number of its enqueue, whether it was in flight already,
and the numbers of the last supersession of its tile and the last enqueue of its pass. -/
structure SendRecord where
  id : ℕ
  retry : Bool
  retired : ℕ
  newest : ℕ
  deriving DecidableEq

/-- A scheduler, the history of its run and what its ticks returned. -/
structure Watch where
  sched : Scheduler
  hist : History
  log : List SendRecord

open Watch

namespace Watch

/-- A new scheduler, watched. -/
def start (cols rows : ℕ) : Watch := ⟨.new cols rows, {}, []⟩

/-- What is logged about an item sent. -/
def sendRecord (g : History) (e : SentWork) : SendRecord where
  id := g.born e.handle
  retry := e.retry
  retired := g.retired e.work.tile
  newest := g.newest e.work.key

/-- The history of filing a list of items as refinement work. -/
def fileAll (s : Scheduler) (g : History) : List TileWork → History
  | [] => g
  | w :: ws => fileAll (s.fileRefinement w) (g.file (s.file w).2 w) ws

/-- The history after an operation. -/
def record (s : Scheduler) (g : History) : SchedOp → History
  | .enqueueAt w now => g.file (s.file (w.queued now)).2 (w.queued now)
  | .supersedePendingForTile x y => g.retire (x, y)
  | .bumpGeneration x y => g.retire (x, y)
  | .bumpGenerationCollecting x y => g.retire (x, y)
  | op => fileAll s g op.items

/-- What an operation sends. -/
def sends (s : Scheduler) : SchedOp → List SentWork
  | .tickAtWith budget share now recoveryOwned => (s.tickAtWith budget share now recoveryOwned).2
  | _ => []

variable (w : Watch) (op : SchedOp)

/-- One operation, watched. -/
def step : Watch where
  sched := op.apply w.sched
  hist := record w.sched w.hist op
  log := w.log ++ (sends w.sched op).map (sendRecord w.hist)

/-- The numbers of the first sends. -/
def firstIds : List ℕ := (w.log.filter fun e => !e.retry).map SendRecord.id

/-- What holds in every state of a run. -/
structure Inv (w : Watch) : Prop where
  tracked : Tracked w.hist w.sched w.firstIds
  log : ∀ e ∈ w.log, e.retired < e.id ∧ e.newest = e.id

open Scheduler

variable {fired : List ℕ}

/-- Filing a list of items keeps the scheduler in step with its history. -/
theorem fileAll_tracked (ws : List TileWork) :
    ∀ (s : Scheduler) (g : History), Tracked g s fired → (∀ w ∈ ws, w.state = .pending) →
      (∀ w ∈ ws, s.slots.InGrid w.tileX w.tileY ∧ w.passIdx.toNat < passSlots) →
      Tracked (fileAll s g ws) (ws.foldl fileRefinement s) fired := by
  induction ws with
  | nil =>
    intro s g ht _ _
    exact ht
  | cons w ws ih =>
    intro s g ht hst hin
    obtain ⟨hgrid, hpass⟩ := hin w mem_cons_self
    exact ih (s.fileRefinement w) (g.file (s.file w).2 w)
      (fileRefinement_tracked (hst w mem_cons_self) ht hgrid hpass)
      (fun v hv => hst v (mem_cons_of_mem _ hv)) (inGrid_rest hin)

theorem refinementItems_pending {x y gen : UInt8} {passes : List Bytes} {now : Instant}
    {w : TileWork} (hw : w ∈ refinementItems x y gen passes now) : w.state = .pending := by
  obtain ⟨i, hi, rfl⟩ := mem_mapIdx.1 hw
  rfl

theorem subsetItems_pending {x y gen : UInt8} {mask : UInt16} {payloads : List Bytes}
    {now : Instant} {w : TileWork} (hw : w ∈ subsetItems x y gen mask payloads now) :
    w.state = .pending := by
  obtain ⟨q, _, rfl⟩ := mem_map.1 hw
  rfl

theorem supersede_tracked {s : Scheduler} {g : History} (x y : UInt8)
    (ht : Tracked g s fired) : Tracked (g.retire (x, y)) (s.supersedePendingForTile x y) fired := by
  have hlabel : (s.slots.clearLabel x y).handle = s.slots.handle := by
    funext x' y' q
    exact handle_clearLabel s.slots x y x' y' q
  exact retireTile_tracked (tracked_withSlots ht hlabel)

theorem bump_tracked {s : Scheduler} {g : History} (x y : UInt8)
    (ht : Tracked g s fired) :
    Tracked g { s with slots := (s.slots.bumpGeneration x y).1 } fired := by
  refine tracked_withSlots ht ?_
  funext x' y' q
  exact handle_bumpGeneration s.slots x y x' y' q

/-- **Every operation keeps the scheduler in step with its history, and sends current work.** -/
theorem apply_tracked {s : Scheduler} {g : History}
    (hop : ∀ item ∈ op.items, s.slots.InGrid item.tileX item.tileY ∧
      item.passIdx.toNat < passSlots) (ht : Tracked g s fired) :
    Tracked (record s g op) (op.apply s) (fired ++ g.firstSends (sends s op)) ∧
      g.AllCurrent (sends s op) := by
  have hsilent : Tracked (record s g op) (op.apply s) fired → sends s op = [] →
      Tracked (record s g op) (op.apply s) (fired ++ g.firstSends (sends s op)) ∧
        g.AllCurrent (sends s op) := by
    intro h hsends
    rw [hsends]
    exact ⟨(append_nil fired).symm ▸ h, nofun⟩
  have hemptied : ∀ t : Scheduler, (∀ k, t.work.get k = none) → t.priorityOrder = [] →
      t.buckets = replicate passSlots {} → Tracked g t fired :=
    fun t hwork hprio hbuckets => empty_tracked hwork hprio hbuckets ht.items.retiredLe
      ht.items.firedLe ht.items.firedNodup
  cases op with
  | enqueueAt v now =>
    obtain ⟨hgrid, hpass⟩ := hop (v.queued now) mem_cons_self
    exact hsilent (enqueueAt_tracked ht hgrid hpass) rfl
  | enqueueRefinementWorkAt v now =>
    have hst : ∀ w ∈ [v.queued now], w.state = .pending := by simp [queued]
    exact hsilent (fileAll_tracked _ s g ht hst hop) rfl
  | enqueueRefinementAt x y gen passes now =>
    exact hsilent (fileAll_tracked _ s g ht (fun _ hw => refinementItems_pending hw) hop) rfl
  | enqueueRefinementSubsetAt x y gen mask payloads now =>
    exact hsilent (fileAll_tracked _ s g ht (fun _ hw => subsetItems_pending hw) hop) rfl
  | supersedePendingForTile x y => exact hsilent (supersede_tracked x y ht) rfl
  | bumpGeneration x y => exact hsilent (bump_tracked x y (supersede_tracked x y ht)) rfl
  | bumpGenerationCollecting x y =>
    refine hsilent ?_ rfl
    have hbump := bump_tracked x y (retireTile_tracked (x := x) (y := y) ht)
    rw [← collect_fst s x y passIndices []] at hbump
    exact hbump
  | markAcked x y gen p => exact hsilent (markAcked_tracked x y gen p ht) rfl
  | recordCdf53Ack x y gen p =>
    refine hsilent (tracked_withSlots ht ?_) rfl
    funext x' y' q
    exact handle_recordAck s.slots x y gen p x' y' q
  | frameLabel x y seq =>
    refine hsilent (tracked_withSlots ht ?_) rfl
    funext x' y' q
    exact handle_labelOrAssign s.slots x y seq x' y' q
  | tickAtWith budget share now owned => exact tick_tracked budget share now owned ht
  | setRetryAfter | setItemOverhead => exact hsilent ⟨ht.queues, ht.items⟩ rfl
  | clear | resize => exact hsilent (hemptied _ (get_clear s.work) rfl rfl) rfl

theorem firstIds_step :
    (w.step op).firstIds = w.firstIds ++ w.hist.firstSends (sends w.sched op) := by
  unfold firstIds step History.firstSends
  rw [filter_append, map_append, filter_map, map_map]
  rfl

/-- **What one operation preserves.** -/
theorem step_inv (hi : Inv w) (hop : op.WithinGrid w.sched) :
    Inv (w.step op) := by
  obtain ⟨ht, hall⟩ := apply_tracked op hop hi.tracked
  rw [← firstIds_step] at ht
  refine ⟨ht, ?_⟩
  intro e he
  rcases mem_append.1 he with he | he
  · exact hi.log e he
  · obtain ⟨sent, hsent, rfl⟩ := mem_map.1 he
    exact hall sent hsent

theorem start_inv (cols rows : ℕ) : Inv (start cols rows) :=
  ⟨empty_tracked (fun _ => rfl) rfl rfl (fun _ => le_rfl) nofun nodup_nil, nofun⟩

end Watch

/-- **Superseded content is never sent.** In a run that enqueues work for tiles of the grid only,
every item a tick returns was enqueued after its tile's last bump or supersession and is the last
one enqueued for its pass, and no item is returned twice as a first send. -/
theorem superseded_never_emitted (cols rows : ℕ) (ops : List SchedOp)
    (hops : Along (fun w op => op.WithinGrid w.sched) Watch.step (Watch.start cols rows) ops) :
    (∀ e ∈ (run Watch.step (Watch.start cols rows) ops).log,
        e.retired < e.id ∧ e.newest = e.id) ∧
      (run Watch.step (Watch.start cols rows) ops).firstIds.Nodup := by
  have hinv : Watch.Inv (run step (start cols rows) ops) :=
    hops.inv step_inv (start_inv cols rows)
  exact ⟨hinv.log, hinv.tracked.items.firedNodup⟩

/-- A tile enqueued, changed, enqueued again and drained, then retried and acknowledged. -/
def churn : List SchedOp :=
  let solid : TileWork := ⟨0, 0, 0, 0, 1, .solid, [1, 2, 3, 4], 0, none, .pending⟩
  [.enqueueAt solid 0, .bumpGenerationCollecting 0 0, .enqueueAt { solid with generation := 1 } 1,
    .enqueueRefinementAt 1 0 0 [[5], [6]] 1, .tickAtWith 100 20 2 (fun _ _ _ => false),
    .tickAtWith 100 20 (fromMillis 50) (fun _ _ _ => false), .markAcked 0 0 1 0,
    .tickAtWith 100 20 (fromMillis 100) (fun _ _ _ => false)]

theorem superseded_never_emitted_churn :
    Along (fun w op => op.WithinGrid w.sched) Watch.step (Watch.start 2 1) churn ∧
      (run Watch.step (Watch.start 2 1) churn).log.length = 4 ∧
      (run Watch.step (Watch.start 2 1) churn).firstIds.Nodup := by
  have hok : Along (fun w op => op.WithinGrid w.sched) step (start 2 1) churn := by decide +kernel
  exact ⟨hok, by decide +kernel, (superseded_never_emitted 2 1 churn hok).2⟩

/-- Refinement work for a tile outside a grid of one tile, bumped and then drained. -/
def offGrid : List SchedOp :=
  [.enqueueRefinementAt 5 5 0 [[1]] 0, .bumpGeneration 5 5,
    .tickAtWith 100 100 1 fun _ _ _ => false]

/-- No slot leads to work outside the grid, so the bump does not retire it. -/
theorem off_grid_work_outlives_bump :
    ∃ e ∈ (run Watch.step (Watch.start 1 1) offGrid).log, e.id < e.retired := by
  refine ⟨⟨1, false, 2, 1⟩, ?_, by decide⟩
  decide +kernel

end Ghostframe.Transport
