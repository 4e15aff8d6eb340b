import Ghostframe.Transport.SchedulerBooks

/-!
# A slot leads to its own work

A slot keeps the handle of the last item filed for its tile pass, also when that item
is long gone and its cell holds another. What tells them apart is the version of the
cell, 32 bits that advance twice for every item the cell holds. As long as fewer than
`2 ^ 31` items have been filed no version recurs, and a slot's handle resolves to work
of its own tile pass or to nothing.

* `SlotsSound`: this, with the ages of the cells that carry it;
* `apply_sound`: every operation keeps it, up to the number of items it files.
-/

namespace Ghostframe.Transport

/-- After `n` items were filed, what the handles of the slots resolve to. -/
structure SlotsSound (handle : UInt8 → UInt8 → UInt8 → Option Handle) (work : Slab TileWork)
    (n : ℕ) : Prop where
  aged : work.Aged n
  issued : ∀ x y p h, handle x y p = some h → work.Issued h
  own : ∀ x y p h w, handle x y p = some h → work.get h = some w → w.key = (x, y, p)

namespace SlotsSound

variable {handle handle' : UInt8 → UInt8 → UInt8 → Option Handle} {work : Slab TileWork} {n : ℕ}

/-- An item changes in place, its tile pass apart. -/
theorem modify (hs : SlotsSound handle work n) (h : Handle) {f : TileWork → TileWork}
    (hkey : ∀ w, (f w).key = w.key) : SlotsSound handle (work.modify h f) n where
  aged := (hs.aged.modify h f).1
  issued := fun x y p k hk => (hs.aged.modify h f).2 k (hs.issued x y p k hk)
  own := by
    intro x y p k w hk hw
    rw [Slab.get_modify] at hw
    split at hw
    · rename_i hkh
      obtain ⟨v, hv, rfl⟩ := Option.map_eq_some_iff.1 hw
      rw [hkey]
      exact hs.own x y p k v hk (hkh ▸ hv)
    · exact hs.own x y p k w hk hw

/-- An item leaves the slab. -/
theorem remove (hs : SlotsSound handle work n) (hn : n < 2 ^ 31) (h : Handle) :
    SlotsSound handle (work.remove h) n where
  aged := (hs.aged.remove hn h).1
  issued := fun x y p k hk => (hs.aged.remove hn h).2 k (hs.issued x y p k hk)
  own := by
    intro x y p k w hk hw
    rw [Slab.get_remove] at hw
    split at hw
    · cases hw
    · exact hs.own x y p k w hk hw

/-- **An item is stored, and its slot takes the new handle.** -/
theorem insert {m : SlotMap} (hs : SlotsSound m.handle work n) (hn : n < 2 ^ 31) {w : TileWork}
    (hgrid : m.InGrid w.tileX w.tileY) (hpass : w.passIdx.toNat < passSlots) :
    SlotsSound (m.setHandle w.tileX w.tileY w.passIdx (some (work.insert w).2)).handle
      (work.insert w).1 (n + 1) := by
  obtain ⟨haged, hnew, hold⟩ := hs.aged.insert hn w
  -- a handle of a slot is the new one, or was issued before
  have hcases : ∀ x y p h,
      (m.setHandle w.tileX w.tileY w.passIdx (some (work.insert w).2)).handle x y p = some h →
      (h = (work.insert w).2 ∧ w.key = (x, y, p)) ∨ m.handle x y p = some h := by
    intro x y p h hh
    rw [SlotMap.handle_setHandle hgrid hpass] at hh
    split at hh
    · rename_i hat
      obtain ⟨rfl, rfl, rfl⟩ := hat
      exact .inl ⟨(Option.some.inj hh).symm, rfl⟩
    · exact .inr hh
  refine ⟨haged, ?_, ?_⟩
  · intro x y p h hh
    rcases hcases x y p h hh with ⟨rfl, -⟩ | hh
    · exact hnew
    · exact (hold h (hs.issued x y p h hh)).1
  · intro x y p h v hh hv
    rw [Slab.get_insert] at hv
    rcases hcases x y p h hh with ⟨rfl, hkey⟩ | hh
    · rw [if_pos rfl] at hv
      rw [← Option.some.inj hv, hkey]
    · rw [if_neg (hold h (hs.issued x y p h hh)).2] at hv
      exact hs.own x y p h v hh hv

/-- Only the handles of the slots matter. -/
theorem congr (hs : SlotsSound handle work n) (he : ∀ x y p, handle' x y p = handle x y p) :
    SlotsSound handle' work n where
  aged := hs.aged
  issued := by
    intro x y p h hh
    exact hs.issued x y p h (he x y p ▸ hh)
  own := by
    intro x y p h w hh
    exact hs.own x y p h w (he x y p ▸ hh)

theorem empty (ha : work.Aged n) (hnone : ∀ x y p, handle x y p = none) :
    SlotsSound handle work n where
  aged := ha
  issued := by simp [hnone]
  own := by simp [hnone]

end SlotsSound

namespace Scheduler

/-- The slots of the scheduler are sound after `n` items were filed. -/
def Sound (s : Scheduler) (n : ℕ) : Prop := SlotsSound s.slots.handle s.work n

variable {s s' : Scheduler} {n : ℕ}

theorem move_sound {now : Instant} {out out' : List SentWork}
    (hm : Move now (s, out) (s', out')) (hn : n < 2 ^ 31)
    (hs : s.Sound n) : s'.Sound n := by
  cases hm with
  | discard | discardRefinement | send => exact hs.remove hn _
  | emit hq hw ha => exact hs.modify _ fun _ => rfl
  | arrange hb hperm hbs => exact hs

theorem retire_sound (h : Handle) (hs : s.Sound n) :
    (s.retire h).Sound n := by
  unfold retire
  split
  · exact hs
  · split
    · exact hs.modify h fun _ => rfl
    · exact hs

theorem retirePasses_sound (x y : UInt8) (ps : List UInt8)
    (hs : s.Sound n) :
    (s.retirePasses x y ps).Sound n := by
  induction ps generalizing s with
  | nil => exact hs
  | cons p ps ih =>
    have hstep : (s.supersedeLiveHandle x y p).Sound n := by
      unfold supersedeLiveHandle
      split
      · exact hs
      · exact retire_sound _ hs
    exact ih hstep

theorem supersede_sound (x y : UInt8) (hs : s.Sound n) :
    (s.supersedePendingForTile x y).Sound n := by
  refine retirePasses_sound (s := { s with slots := s.slots.clearLabel x y })
    x y passIndices ?_
  exact hs.congr (SlotMap.handle_clearLabel s.slots x y)

theorem bump_sound (x y : UInt8) (hs : s.Sound n) :
    Sound { s with slots := (s.slots.bumpGeneration x y).1 } n :=
  hs.congr (SlotMap.handle_bumpGeneration s.slots x y)

theorem file_sound {w : TileWork} (hs : s.Sound n) (hn : n < 2 ^ 31)
    (hgrid : s.slots.InGrid w.tileX w.tileY) (hpass : w.passIdx.toNat < passSlots) :
    (s.file w).1.Sound (n + 1) := by
  have hretired := retirePasses_sound w.tileX w.tileY [w.passIdx] hs
  rw [← slots_retirePasses s w.tileX w.tileY [w.passIdx]] at hgrid
  exact hretired.insert hn hgrid hpass

theorem fileAll_sound (ws : List TileWork) (hs : s.Sound n)
    (hn : n + ws.length < 2 ^ 31)
    (hin : ∀ w ∈ ws, s.slots.InGrid w.tileX w.tileY ∧ w.passIdx.toNat < passSlots) :
    (ws.foldl fileRefinement s).Sound (n + ws.length) := by
  induction ws generalizing s n with
  | nil => exact hs
  | cons w ws ih =>
    rw [List.length_cons] at hn
    obtain ⟨hgrid, hpass⟩ := hin w List.mem_cons_self
    have hfiled := file_sound hs (by omega) hgrid hpass
    have hrest := ih (s := s.fileRefinement w) hfiled (by omega) (inGrid_rest hin)
    rw [List.length_cons, Nat.add_comm ws.length 1, ← Nat.add_assoc]
    exact hrest

theorem markAcked_sound (x y gen p : UInt8) (hs : s.Sound n) :
    (s.markAcked x y gen p).Sound n := by
  unfold markAcked
  split
  · exact hs
  · refine hs.modify _ ?_
    intro w
    split <;> rfl

/-- **Every operation keeps the slots sound**, while the items filed are fewer than `2 ^ 31`. -/
theorem apply_sound (op : SchedOp) (hop : op.WithinGrid s)
    (hn : n + op.items.length < 2 ^ 31) (hs : s.Sound n) :
    (op.apply s).Sound (n + op.items.length) := by
  have hlt : n < 2 ^ 31 := by omega
  cases op with
  | enqueueAt w now | enqueueRefinementWorkAt w now =>
    obtain ⟨hgrid, hpass⟩ := hop (w.queued now) List.mem_cons_self
    exact file_sound (w := w.queued now) hs hlt hgrid hpass
  | enqueueRefinementAt | enqueueRefinementSubsetAt => exact fileAll_sound _ hs hn hop
  | supersedePendingForTile x y => exact supersede_sound x y hs
  | bumpGeneration x y =>
    exact bump_sound x y (supersede_sound x y hs)
  | bumpGenerationCollecting x y =>
    have hretired := retirePasses_sound x y passIndices hs
    rw [← collect_fst s x y passIndices []] at hretired
    exact bump_sound x y hretired
  | markAcked x y gen p => exact markAcked_sound x y gen p hs
  | recordCdf53Ack x y gen p => exact hs.congr (SlotMap.handle_recordAck s.slots x y gen p)
  | frameLabel x y seq => exact hs.congr (SlotMap.handle_labelOrAssign s.slots x y seq)
  | tickAtWith budget share now owned =>
    exact Moves.inv (P := fun t _ => t.Sound n)
      (fun hm ht => move_sound hm hlt ht) (tick_moves s budget share now owned) hs
  | setRetryAfter d => exact hs
  | setItemOverhead bytes => exact hs
  | clear => exact SlotsSound.empty (hs.aged.clear hlt) (SlotMap.handle_clearHandles s.slots)
  | resize cols rows => exact SlotsSound.empty (hs.aged.clear hlt) (SlotMap.handle_new cols rows)

end Scheduler

end Ghostframe.Transport
