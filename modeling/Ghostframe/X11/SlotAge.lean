import Ghostframe.Lib.ChangeLog
import Ghostframe.X11.Frames

/-!
# A reused slot is an old frame, patched

A segment last made current at tick `n` differs from the screen only in tiles of the grab
sets filed after `n`. `grabFor` asks for the rows of those tiles and of the pointer, so
after the grab and the blend the segment is the screen with the pointer.

* `Fresh`: what a segment holds, read through the log of grab sets;
* `refresh_exact`: grab and blend give the current picture.
-/

namespace Ghostframe.X11

open FramePool List Option TileBitmap

open TileBitmap (tileOf)
open Capture (tileSize)

/-! ### The pool -/

theorem mem_of_mem_swapRemove {α : Type*} {l : List α} {i : ℕ} {x : α} (h : x ∈ swapRemove l i) :
    x ∈ l := by
  unfold swapRemove at h
  split at h
  · rename_i last hlast
    rcases mem_or_eq_of_mem_set (mem_of_mem_dropLast h) with hmem | rfl
    · exact hmem
    · exact mem_of_getLast? hlast
  · exact h

theorem FramePool.mem_of_mem_dropWhere {remove : Segment → Bool} {fuel i : ℕ}
    {free : List Segment} {seg : Segment} (h : seg ∈ dropWhere remove fuel i free) :
    seg ∈ free := by
  induction fuel generalizing i free with
  | zero => exact h
  | succ fuel ih =>
    unfold dropWhere at h
    split at h
    · split_ifs at h
      · exact mem_of_mem_swapRemove (ih h)
      · exact ih h
    · exact h

variable {p : FramePool} {slot : Option Segment}

theorem FramePool.tryAcquire_mem {pool : FramePool} (h : p.tryAcquire = some (pool, slot)) :
    ∀ seg ∈ pool.free, seg ∈ p.free := by
  unfold tryAcquire at h
  split_ifs at h
  obtain ⟨rfl, -⟩ := Prod.mk.inj (some.inj h)
  exact fun seg hseg => mem_of_mem_dropLast hseg

theorem FramePool.tryAcquireCheapest_mem {pool : FramePool} {cost : Segment → ℕ}
    (h : p.tryAcquireCheapest cost = some (pool, slot)) :
    (∀ seg ∈ pool.free, seg ∈ p.free) ∧ ∀ seg ∈ slot, seg ∈ p.free := by
  unfold tryAcquireCheapest at h
  split_ifs at h
  split at h
  · obtain ⟨rfl, rfl⟩ := Prod.mk.inj (some.inj h)
    exact ⟨fun seg hseg => mem_of_mem_swapRemove hseg, fun seg hseg => mem_of_getElem? hseg⟩
  · obtain ⟨rfl, rfl⟩ := Prod.mk.inj (some.inj h)
    exact ⟨fun seg hseg => hseg, fun seg hseg => absurd hseg (not_mem_none _)⟩

theorem FramePool.mem_giveBack {seg : Segment} :
    seg ∈ (p.giveBack slot).free ↔ seg ∈ p.free ∨ seg ∈ slot := by
  rw [giveBack, mem_append, mem_toList, mem_def]

namespace X11Frames

/-- Only the pool and the shared-memory bookkeeping differ: every free segment was free, came
back in the slot, or holds no tick. -/
def Reslotted (f f' : X11Frames) (slot : Option Segment) : Prop :=
  ∃ pool shmLen shmUsable shmRetryIn, f' = { f with pool, shmLen, shmUsable, shmRetryIn } ∧
    ∀ seg ∈ pool.free, seg ∈ f.pool.free ∨ seg ∈ slot ∨ seg.held = none

variable (f : X11Frames) {log : ChangeLog (ℕ × ℕ)} (slot : Option Segment) {a : Answers}
  {root : Picture} {p : ℕ × ℕ} {buf : FrameBuf}

theorem Reslotted.refl : f.Reslotted f slot :=
  ⟨f.pool, f.shmLen, f.shmUsable, f.shmRetryIn, rfl, fun _ h => .inl h⟩

theorem Reslotted.trans {f g h : X11Frames} {slot : Option Segment} (hfg : f.Reslotted g slot)
    (hgh : g.Reslotted h slot) : f.Reslotted h slot := by
  obtain ⟨pool, l, u, r, rfl, hpool⟩ := hfg
  obtain ⟨pool', l', u', r', rfl, hpool'⟩ := hgh
  refine ⟨pool', l', u', r', rfl, fun seg hseg => ?_⟩
  rcases hpool' seg hseg with hold | hnew
  · exact hpool seg hold
  · exact .inr hnew

theorem reslotted_releaseStale : f.Reslotted f.releaseStale slot :=
  ⟨_, f.shmLen, f.shmUsable, f.shmRetryIn, rfl,
    fun _ h => .inl (mem_of_mem_dropWhere h)⟩

theorem reslotted_giveBack (back : Option Segment)
    (hback : ∀ seg ∈ back, seg ∈ slot ∨ seg.held = none) :
    f.Reslotted { f with pool := f.pool.giveBack back } slot := by
  refine ⟨_, f.shmLen, f.shmUsable, f.shmRetryIn, rfl, fun seg hseg => ?_⟩
  rcases mem_giveBack.1 hseg with hfree | hmem
  · exact .inl hfree
  · exact .inr (hback seg hmem)

theorem reslotted_attachFailed (err : AttachError) (slot : Option Segment) :
    f.Reslotted (f.attachFailed err) slot := by
  have hmem : ∀ seg ∈ ({ f with shmLen := none }).releaseStale.pool.free, seg ∈ f.pool.free :=
    fun _ h => mem_of_mem_dropWhere h
  cases err <;> exact ⟨_, _, _, _, rfl, fun seg h => .inl (hmem seg h)⟩

theorem reslotted_leaveProbe : f.Reslotted f.leaveProbe slot := by
  unfold leaveProbe
  split
  · rename_i pool _ hacquire
    refine ⟨_, f.shmLen, f.shmUsable, f.shmRetryIn, rfl, fun seg hseg => ?_⟩
    rcases mem_giveBack.1 hseg with hfree | hmem
    · exact .inl (tryAcquire_mem hacquire seg hfree)
    · rw [mem_some_iff] at hmem
      exact .inr (.inr (hmem ▸ rfl))
  · exact .refl _ _

theorem reslotted_ensureSegment (attach : Option AttachError) :
    f.Reslotted (f.ensureSegment attach) none := by
  have hstart : f.Reslotted { f with shmRetryIn := none } none :=
    ⟨f.pool, f.shmLen, f.shmUsable, none, rfl, fun _ h => .inl h⟩
  unfold ensureSegment
  dsimp only
  split_ifs
  · exact hstart
  · exact hstart
  · refine hstart.trans ?_
    cases attach with
    | some err => exact reslotted_attachFailed _ err none
    | none =>
      refine Reslotted.trans ?_ (reslotted_leaveProbe _ none)
      exact ⟨_, _, _, _, rfl, fun _ h => .inl (mem_of_mem_dropWhere h)⟩

theorem reslotted_retryShm (a : Answers) : f.Reslotted (f.retryShm a) none := by
  unfold retryShm
  split
  · have hstart : f.Reslotted { f with shmRetryIn := none } none :=
      ⟨f.pool, f.shmLen, f.shmUsable, none, rfl, fun _ h => .inl h⟩
    exact hstart.trans (reslotted_ensureSegment _ _)
  · exact ⟨f.pool, f.shmLen, f.shmUsable, _, rfl, fun _ h => .inl h⟩
  · exact Reslotted.refl _ _

/-! ### What a grab writes -/

theorem inBands_cons {b : Band} {bs : List Band} {y : ℕ} :
    InBands (b :: bs) y ↔ (b.y0 ≤ y ∧ y < b.y1) ∨ InBands bs y := by
  simp only [InBands, exists_mem_cons_iff]

theorem foldl_writeBand (hstable : ∀ i, a.seen i p = root p) {l : List (Band × ℕ)}
    (hserved : ∀ b ∈ l, a.served b.2 = true) (target : Picture) :
    l.foldl (fun pic b => if a.served b.2 then writeBand b.1 (a.seen b.2) pic else pic) target p =
      if InBands (l.map Prod.fst) p.2 then root p else target p := by
  induction l generalizing target with
  | nil => simp [InBands]
  | cons b l ih =>
    rw [foldl_cons, ih fun b' hb' => hserved b' (mem_cons_of_mem _ hb'),
      if_pos (hserved b mem_cons_self), map_cons, writeBand, hstable]
    simp only [inBands_cons]
    by_cases hrest : InBands (l.map Prod.fst) p.2
    · simp only [hrest, if_true, or_true]
    · simp only [hrest, if_false, or_false]

theorem writeBands_eq (hstable : ∀ i, a.seen i p = root p) {bands : List Band}
    (hserved : (List.range bands.length).all a.served = true) (target : Picture) :
    writeBands a bands target p = if InBands bands p.2 then root p else target p := by
  have hall : ∀ b ∈ bands.zipIdx, a.served b.2 = true := by
    rintro ⟨b, i⟩ hb
    have hi := (mem_zipIdx hb).2.1
    exact all_eq_true.1 hserved i (mem_range.2 (by omega))
  rw [writeBands, foldl_writeBand hstable hall, zipIdx_map_fst]

/-- The pixels of a filled frame: grabbed now, or outside the bands and as the slot had them. -/
def Filled (f : X11Frames) (slot : Option Segment) (g : Grab) (a : Answers) (root : Picture)
    (buf : FrameBuf) : Prop :=
  (∀ seg ∈ buf.2, seg.held = some f.tick) ∧
    ∀ p : ℕ × ℕ, p.2 < f.h → (∀ i, a.seen i p = root p) →
      buf.1 p = root p ∨ ¬ InBands (g.wanted f.h) p.2 ∧ ∃ seg ∈ slot, buf.1 p = seg.picture p

theorem grabSegment_cases (seg : Segment) (g : Grab) (a : Answers) (root : Picture)
    (slot : Option Segment) (hslot : seg ∈ slot ∨ g = .full) :
    f.Reslotted (f.grabSegment seg g a).1 slot ∧
      ∀ buf ∈ (f.grabSegment seg g a).2, f.Filled slot g a root buf := by
  unfold grabSegment
  dsimp only
  split_ifs with hserved
  · refine ⟨.refl _ _, ?_⟩
    rintro buf hbuf
    obtain rfl := some.inj hbuf
    refine ⟨fun seg' hseg' => ?_, fun p hp hstable => ?_⟩
    · obtain rfl := some.inj hseg'
      rfl
    · dsimp only
      rw [writeBands_eq hstable hserved]
      split_ifs with hin
      · exact .inl rfl
      · refine .inr ⟨hin, ?_⟩
        rcases hslot with hslot | rfl
        · exact ⟨seg, hslot, rfl⟩
        · exact absurd (inBands_full hp) hin
  · refine ⟨reslotted_giveBack f slot _ fun seg' hseg' => ?_, fun buf hbuf => ?_⟩
    · obtain rfl := some.inj hseg'
      exact .inr rfl
    · exact absurd hbuf (not_mem_none _)

theorem grabGetImage_filled (g : Grab) (a : Answers) (root : Picture) :
    ∀ buf ∈ (f.grabGetImage a).2, f.Filled slot g a root buf := by
  unfold grabGetImage
  split_ifs
  · rintro buf hbuf
    obtain rfl := some.inj hbuf
    exact ⟨fun seg hseg => absurd hseg (not_mem_none _),
      fun p _ hstable => .inl (hstable 0)⟩
  · exact fun buf hbuf => absurd hbuf (not_mem_none _)

theorem Filled.reslotted {f f' : X11Frames} {slot slot' : Option Segment} {g : Grab}
    (h : f'.Filled slot g a root buf) (hf : f.Reslotted f' slot') : f.Filled slot g a root buf := by
  obtain ⟨pool, l, u, r, rfl, -⟩ := hf
  exact h

theorem Filled.of_full {f : X11Frames} {slot : Option Segment} {g : Grab}
    (h : f.Filled slot .full a root buf) : f.Filled slot g a root buf := by
  refine ⟨h.1, fun p hp hstable => ?_⟩
  rcases h.2 p hp hstable with hroot | ⟨hout, -⟩
  · exact .inl hroot
  · exact absurd (inBands_full hp) hout

theorem grab_cases (g : Grab) (a : Answers) (root : Picture) :
    f.Reslotted (f.grab slot g a).1 slot ∧
      ∀ buf ∈ (f.grab slot g a).2, f.Filled slot g a root buf := by
  unfold grab
  split_ifs
  · split
    · rename_i seg hseg
      exact f.grabSegment_cases seg g a root slot (.inl (filter_eq_some_iff.1 hseg).1)
    · have hrelease := f.reslotted_releaseStale slot
      cases a.attachGrab with
      | none =>
        obtain ⟨hslots, hfilled⟩ :=
          f.releaseStale.grabSegment_cases (.fresh f.releaseStale.want) .full a root slot (.inr rfl)
        exact ⟨hrelease.trans hslots,
          fun buf hbuf => ((hfilled buf hbuf).reslotted hrelease).of_full⟩
      | some err =>
        have hback := f.releaseStale.reslotted_giveBack slot none
          fun seg hseg => absurd hseg (not_mem_none _)
        have hall := hrelease.trans (hback.trans (reslotted_attachFailed _ err slot))
        exact ⟨hall, fun buf hbuf => (grabGetImage_filled _ slot g a root buf hbuf).reslotted hall⟩
  · have hback := f.reslotted_giveBack slot slot fun seg hseg => .inl hseg
    exact ⟨hback, fun buf hbuf => (grabGetImage_filled _ slot g a root buf hbuf).reslotted hback⟩

/-! ### What a grab leaves alone -/

theorem foldl_orWith {masks : List TileBitmap} {b : TileBitmap} (h : ∀ m ∈ masks, b.px = m.px) :
    (masks.foldl .orWith b).px = b.px ∧ b.tiles ⊆ (masks.foldl .orWith b).tiles ∧
      ∀ m ∈ masks, m.tiles ⊆ (masks.foldl .orWith b).tiles := by
  induction masks generalizing b with
  | nil => exact ⟨rfl, subset_rfl, fun _ hm => absurd hm not_mem_nil⟩
  | cons m masks ih =>
    have hm := h m mem_cons_self
    have hpx : (b.orWith m).px = b.px := b.orWith_px m
    obtain ⟨hpx', hstart, hall⟩ :=
      ih (b := b.orWith m) fun m' hm' => hpx.trans (h m' (mem_cons_of_mem _ hm'))
    have hget : ∀ t, t ∈ (b.orWith m).tiles ↔ t ∈ b.tiles ∨ t ∈ m.tiles := by
      intro t
      simp only [mem_tiles, get_orWith hm, Bool.or_eq_true]
    refine ⟨hpx'.trans hpx, fun t ht => hstart ((hget t).2 (.inl ht)), fun m' hm' => ?_⟩
    rcases mem_cons.1 hm' with rfl | hm'
    · exact fun t ht => hstart ((hget t).2 (.inr ht))
    · exact hall m' hm'

/-- The ring stores the grab sets of the log it names. -/
structure RingHolds (f : X11Frames) (log : ChangeLog (ℕ × ℕ)) : Prop where
  length : f.ring = [] ∨ f.ring.length = ageRing
  entry : ∀ e ∈ f.ring, e.tick ≠ 0 → e.tick < log.next ∧ e.mask.tiles = log.sealed e.tick
  union : ∀ e ∈ f.ring, f.union.px = e.mask.px

/-- A segment differs from the view only where pixels are volatile or in a tile filed since it
was current; one older than the age floor may hold anything. -/
def Fresh (f : X11Frames) (log : ChangeLog (ℕ × ℕ)) (view : Picture) (volatile : Set (ℕ × ℕ))
    (seg : Segment) : Prop :=
  ∀ n ∈ seg.held, f.ageFloor ≤ n → ∀ p : ℕ × ℕ, p.1 < f.w → p.2 < f.h → p ∉ volatile →
    tileOf p ∉ log.sealedSince n → seg.picture p = view p

theorem entryFor_spec {f : X11Frames} (hring : f.RingHolds log) {u : ℕ} (hu : u ≠ 0) {e : AgeEntry}
    (he : f.entryFor u = some e) :
    e.mask.px = (f.w, f.h) ∧ f.union.px = e.mask.px ∧ e.mask.tiles = log.sealed u := by
  obtain ⟨hmem, hcond⟩ := filter_eq_some_iff.1 he
  rw [Bool.and_eq_true, beq_iff_eq, matchesPx_iff] at hcond
  obtain ⟨rfl, hpx⟩ := hcond
  have hmem : e ∈ f.ring := mem_of_getElem? hmem
  exact ⟨hpx, hring.union e hmem, (hring.entry e hmem hu).2⟩

theorem w_lt : f.w < 2 ^ 16 := f.width.toNat_lt

theorem h_lt : f.h < 2 ^ 16 := f.height.toNat_lt

/-- A row that is not grabbed holds no tile filed since the slot was current, and no pointer. -/
theorem grabFor_spec {f : X11Frames} (hring : f.RingHolds log) {t : ℕ} (hnext : log.next = t + 1)
    {held : Option ℕ} {cur : Option CursorReply} (hx : p.1 < f.w) (hy : p.2 < f.h)
    (hout : ¬ InBands ((f.grabFor t held (cur.map .of)).wanted f.h) p.2) :
    ∃ n ∈ held, f.ageFloor ≤ n ∧ tileOf p ∉ log.sealedSince n ∧ ¬ Under cur p := by
  unfold grabFor at hout
  split at hout
  · exact absurd (inBands_full hy) hout
  rename_i s hs
  obtain ⟨hheld, hcond⟩ := filter_eq_some_iff.1 hs
  simp only [Bool.and_eq_true, decide_eq_true_eq] at hcond
  obtain ⟨⟨hlt, hfloor⟩, -⟩ := hcond
  dsimp only at hout
  split_ifs at hout with hall
  swap
  · exact absurd (inBands_full hy) hout
  simp only [List.all_eq_true, List.mem_range'_1] at hall
  -- every tick since the slot was current has its entry
  have hentry : ∀ u, s < u → u < log.next → ∃ e, f.entryFor u = some e ∧
      e ∈ (range' (s + 1) (t - s)).filterMap f.entryFor := by
    intro u hsu hut
    have hu : s + 1 ≤ u ∧ u < s + 1 + (t - s) := by omega
    obtain ⟨e, he⟩ := isSome_iff_exists.1 (hall u hu)
    exact ⟨e, he, mem_filterMap.2 ⟨u, mem_range'_1.2 hu, he⟩⟩
  have hpx : f.union.px = (f.w, f.h) := by
    obtain ⟨e, he, -⟩ := hentry t hlt (by omega)
    obtain ⟨hmask, hunion, -⟩ := entryFor_spec hring (by omega) he
    exact hunion.trans hmask
  have hmasks : ∀ m ∈ ((range' (s + 1) (t - s)).filterMap f.entryFor).map AgeEntry.mask,
      f.union.clear.px = m.px := by
    intro m hm
    obtain ⟨e, he, rfl⟩ := mem_map.1 hm
    obtain ⟨u, hu, he⟩ := mem_filterMap.1 he
    rw [mem_range'_1] at hu
    exact (entryFor_spec hring (by omega) he).2.1
  obtain ⟨hfold, -, hsub⟩ := foldl_orWith hmasks
  generalize (((range' (s + 1) (t - s)).filterMap f.entryFor).map AgeEntry.mask).foldl
    orWith f.union.clear = union at hout hfold hsub
  have hunion : union.px = (f.w, f.h) := hfold.trans hpx
  have hmark : tileOf p ∉ ((cur.map CursorRect.of).elim union (cursorTilesInto union)).tiles :=
    fun hmark => hout (plan_covers hy hmark)
  refine ⟨s, hheld, hfloor, ?_, ?_⟩
  · rintro ⟨u, hsu, hut, hmem⟩
    obtain ⟨e, he, hlist⟩ := hentry u hsu hut
    have htile : tileOf p ∈ union.tiles := by
      refine hsub e.mask (mem_map_of_mem hlist) ?_
      rw [(entryFor_spec hring (by omega) he).2.2]
      exact hmem
    cases cur with
    | none => exact hmark htile
    | some c => exact hmark (tiles_subset_cursorTilesInto union _ htile)
  · rintro ⟨c, hc, hholds⟩
    obtain rfl := mem_def.1 hc
    refine hmark (cursorTilesInto_covers ?_ ?_ hholds)
    · rw [hunion]
      exact ⟨f.w_lt, f.h_lt⟩
    · rw [hunion]
      exact ⟨hx, hy⟩

/-- **A slot that is brought up to date shows the root with the pointer, blended once.** -/
theorem refresh_exact {f : X11Frames} {log : ChangeLog (ℕ × ℕ)} (hring : f.RingHolds log)
    (hnext : log.next = f.tick + 1) {root : Picture} {cur : Option CursorReply}
    {slot : Option Segment}
    (hfresh : ∀ seg ∈ slot, f.Fresh log (withCursor cur f.w f.h root) ∅ seg) {a : Answers}
    {buf : FrameBuf}
    (hfilled : f.Filled slot (f.grabFor f.tick (slot.bind Segment.held) (cur.map .of)) a root buf)
    {p : ℕ × ℕ} (hx : p.1 < f.w) (hy : p.2 < f.h) (hstable : ∀ i, a.seen i p = root p) :
    withCursor cur f.w f.h buf.1 p = withCursor cur f.w f.h root p := by
  rcases hfilled.2 p hy hstable with hroot | ⟨hout, seg, hseg, hpic⟩
  · exact withCursor_congr hroot
  · obtain ⟨n, hn, hfloor, htile, hunder⟩ := grabFor_spec hring hnext hx hy hout
    have hheld : n ∈ seg.held := by
      rw [mem_def.1 hseg] at hn
      exact hn
    have hview := hfresh seg hseg n hheld hfloor p hx hy (Set.notMem_empty p) htile
    rw [withCursor_of_not_under hunder, hpic, hview]

/-! ### Filing a tick -/

theorem ensureRing_cases {f : X11Frames} (hring : f.RingHolds log) :
    (∃ ring union, f.ensureRing = { f with ring, union }) ∧ f.ensureRing.ring.length = ageRing ∧
      f.ensureRing.union.px = (f.w, f.h) ∧ f.ensureRing.RingHolds log := by
  unfold ensureRing
  split_ifs with hhead
  · obtain ⟨e, he, hpx⟩ := (any_eq_true _ _).1 hhead
    have hmem : e ∈ f.ring := mem_of_head? he
    rw [matchesPx_iff] at hpx
    refine ⟨⟨f.ring, f.union, rfl⟩, ?_, (hring.union e hmem).trans hpx, hring⟩
    rcases hring.length with hnil | hlen
    · rw [hnil] at hmem
      exact absurd hmem not_mem_nil
    · exact hlen
  · refine ⟨⟨_, _, rfl⟩, length_replicate, rfl, ⟨.inr length_replicate, ?_, ?_⟩⟩
    · intro e he
      rw [eq_of_mem_replicate he]
      exact fun hne => absurd rfl hne
    · intro e he
      rw [eq_of_mem_replicate he]

theorem maskAt_px {f : X11Frames} (hring : f.RingHolds log) (hlen : f.ring.length = ageRing)
    (t : ℕ) :
    (f.maskAt t).px = f.union.px := by
  have hlt : t % ageRing < f.ring.length := by
    rw [hlen]
    exact Nat.mod_lt _ (by decide)
  rw [maskAt, getElem?_eq_getElem hlt]
  exact (hring.union _ (getElem_mem hlt)).symm

/-- Filing a grab set adds it to the log. -/
theorem RingHolds.file {f : X11Frames} (hring : f.RingHolds log) (hcurrent : log.current = ∅)
    (mask : TileBitmap) (hpx : f.union.px = mask.px) :
    (f.file log.next mask).RingHolds (log.mark mask.tiles).advance := by
  refine ⟨?_, fun e he hne => ?_, fun e he => ?_⟩
  · rcases hring.length with hnil | hlen
    · exact .inl (by rw [X11Frames.file, hnil]; rfl)
    · exact .inr (length_set.trans hlen)
  · rcases mem_or_eq_of_mem_set he with hold | rfl
    · obtain ⟨hlt, htiles⟩ := hring.entry e hold hne
      exact ⟨Nat.lt_succ_of_lt hlt,
        htiles.trans (ChangeLog.advance_sealed_of_lt (l := log.mark mask.tiles) hlt).symm⟩
    · refine ⟨Nat.lt_succ_self _, ?_⟩
      have hsealed := (log.mark mask.tiles).advance_sealed_next
      simp only [ChangeLog.mark, hcurrent, Set.empty_union] at hsealed ⊢
      exact hsealed.symm
  · rcases mem_or_eq_of_mem_set he with hold | rfl
    · exact hring.union e hold
    · exact hpx

/-- A segment stays fresh when the tick's grab set names whatever changed. -/
theorem Fresh.filed {f : X11Frames} {keys : Set (ℕ × ℕ)} {view view' : Picture}
    {volatile : Set (ℕ × ℕ)} {seg : Segment} (hheld : ∀ n ∈ seg.held, n < log.next)
    (h : ∀ p : ℕ × ℕ, p.1 < f.w → p.2 < f.h → tileOf p ∉ keys →
      f.Fresh log view volatile seg ∧ p ∉ volatile ∧ view p = view' p) :
    f.Fresh (log.mark keys).advance view' ∅ seg := by
  intro n hn hfloor p hx hy _ htile
  rw [ChangeLog.since_advance (l := log.mark keys) (hheld n hn)] at htile
  have hkeys : tileOf p ∉ keys := fun hmem => htile (log.subset_since_mark keys n (.inr hmem))
  have hold : tileOf p ∉ log.sealedSince n := fun hmem => htile (.inr hmem)
  obtain ⟨hfresh, hstable, hview⟩ := h p hx hy hkeys
  rw [hfresh n hn hfloor p hx hy hstable hold, hview]

theorem tiles_clear (b : TileBitmap) : b.clear.tiles = ∅ := by
  ext t
  simp [mem_tiles]

theorem RingHolds.startTick {f : X11Frames} (hring : f.RingHolds log) : f.startTick.RingHolds log :=
  ⟨hring.length, hring.entry, hring.union⟩

/-- A tick without content files the empty set. -/
theorem unchangedTick_cases {f : X11Frames} (hring : f.RingHolds log) (hcurrent : log.current = ∅)
    (hnext : log.next = f.tick + 1) :
    (∃ ring union, f.unchangedTick =
      { ({ f with polledCursor := none } : X11Frames).startTick with ring, union }) ∧
      f.unchangedTick.RingHolds (log.mark ∅).advance := by
  have hstart : ({ f with polledCursor := none } : X11Frames).startTick.RingHolds log :=
    ⟨hring.length, hring.entry, hring.union⟩
  have htick : log.next = ({ f with polledCursor := none } : X11Frames).startTick.tick := hnext
  unfold unchangedTick
  generalize ({ f with polledCursor := none } : X11Frames).startTick = g at hstart htick
  obtain ⟨⟨ring, union, heq⟩, hlen, -, hholds⟩ := ensureRing_cases hstart
  constructor
  · exact ⟨_, union, by rw [heq]; rfl⟩
  · have hpx := (maskAt_px hholds hlen g.ensureRing.tick).symm
    have hfile := hholds.file hcurrent (g.ensureRing.maskAt g.ensureRing.tick).clear hpx
    have htick' : log.next = g.ensureRing.tick := by
      rw [heq]
      exact htick
    rw [tiles_clear, htick'] at hfile
    exact hfile

theorem tellLibrary_cases (slice : Option Slice) :
    ∃ verifyMask libDamage, f.tellLibrary slice = { f with verifyMask, libDamage } := by
  unfold tellLibrary
  dsimp only
  generalize (if f.verifyMask.matchesPx f.w f.h then f.verifyMask else .new f.w f.h).clear = verify
  split
  · split_ifs
    · exact ⟨_, _, rfl⟩
    · exact ⟨_, f.libDamage, rfl⟩
  · exact ⟨_, f.libDamage, rfl⟩

theorem withSlice_spec (slice : Option Slice) (b : TileBitmap) :
    (withSlice slice b).px = b.px ∧ b.tiles ⊆ (withSlice slice b).tiles := by
  cases slice with
  | none => exact ⟨rfl, subset_rfl⟩
  | some s =>
    obtain ⟨hpx, hget⟩ := b.setRows_px_get s.lo s.hi
    exact ⟨hpx, fun t ht => hget t.1 t.2 ht⟩

/-- A tick with pixels files its damage, or the whole screen when that is not believed. -/
theorem fileTick_cases {f : X11Frames} (hring : f.RingHolds log) (hcurrent : log.current = ∅)
    (hnext : log.next = f.tick + 1) {plan : Plan} (hplan : f.plan = some plan) :
    ∃ keys : Set (ℕ × ℕ),
      (∃ ring union verifyMask libDamage, f.fileTick =
        { f.startTick with ring, union, verifyMask, libDamage }) ∧
      f.fileTick.RingHolds (log.mark keys).advance ∧
      ∀ p : ℕ × ℕ, p.1 < f.w → p.2 < f.h → tileOf p ∉ keys →
        plan.known = true ∧ f.planMask.px = (f.w, f.h) ∧ tileOf p ∉ f.planMask.tiles := by
  have hstart := hring.startTick
  have htick : log.next = f.startTick.tick := hnext
  have hsize : f.startTick.w = f.w ∧ f.startTick.h = f.h ∧ f.startTick.planMask = f.planMask :=
    ⟨rfl, rfl, rfl⟩
  unfold fileTick
  rw [hplan]
  dsimp only
  generalize f.startTick = g at hstart htick hsize
  obtain ⟨⟨ring, union, heq⟩, hlen, hpx, hholds⟩ := ensureRing_cases hstart
  have htick' : log.next = g.ensureRing.tick := by
    rw [heq]
    exact htick
  have hmask :
      g.ensureRing.planMask = f.planMask ∧ g.ensureRing.w = f.w ∧ g.ensureRing.h = f.h := by
    rw [heq]
    exact ⟨hsize.2.2, hsize.1, hsize.2.1⟩
  split_ifs with hknown
  · rw [Bool.and_eq_true, matchesPx_iff, hmask.1, hmask.2.1, hmask.2.2] at hknown
    obtain ⟨hslicePx, hsliceTiles⟩ := withSlice_spec plan.slice g.ensureRing.planMask
    obtain ⟨verifyMask, libDamage, htell⟩ := tellLibrary_cases
      (g.ensureRing.file g.ensureRing.tick (withSlice plan.slice g.ensureRing.planMask)) plan.slice
    refine ⟨(withSlice plan.slice g.ensureRing.planMask).tiles, ?_, ?_, fun p _ _ hp => ?_⟩
    · exact ⟨_, union, verifyMask, libDamage, by rw [htell, heq]; rfl⟩
    · have hsame : g.ensureRing.union.px = (withSlice plan.slice g.ensureRing.planMask).px := by
        rw [hslicePx, hpx, hmask.1, hsize.1, hsize.2.1, hknown.2]
      have hfile := hholds.file hcurrent _ hsame
      rw [htick'] at hfile
      rw [htell]
      exact ⟨hfile.length, hfile.entry, hfile.union⟩
    · exact ⟨hknown.1, hknown.2, fun hmem => hp (hsliceTiles (hmask.1.symm ▸ hmem))⟩
  · -- nothing is believed: every tile of the screen is filed
    have hmaskPx := maskAt_px hholds hlen g.ensureRing.tick
    refine ⟨(g.ensureRing.maskAt g.ensureRing.tick).setAll.tiles, ?_, ?_, fun p hx hy hp => ?_⟩
    · exact ⟨_, union, g.verifyMask, g.libDamage, by rw [heq]; rfl⟩
    · have hfile := hholds.file hcurrent
        (g.ensureRing.maskAt g.ensureRing.tick).setAll hmaskPx.symm
      rw [htick'] at hfile
      exact hfile
    · refine absurd (get_setAll _ ?_ ?_) hp
      · rw [tilesW, hmaskPx, hpx, hsize.1]
        exact div_tileSize_lt hx
      · rw [tilesH, hmaskPx, hpx, hsize.2.1]
        exact div_tileSize_lt hy

end X11Frames

end Ghostframe.X11
