import Ghostframe.Gpu.Coalesce

/-!
# The export ring

The client's private framebuffer is published by copying into one of a few exported
buffers, which the host holds until it releases the frame. A buffer may come back several
generations stale; only what changed since it was last filled is copied.

* `planPublish`, `encodeBlit`, `finishPublish`: the three parts of a publish;
* `release`, `resize`: buffers come back, or retire to the graveyard while they are held.

The copy is taken to write exactly the planned rectangles; fences, modifiers and file
descriptors are left out.
-/

namespace Ghostframe.Gpu

open List

/-- A picture: its size, and a pixel at each place. -/
structure Image (Px : Type*) where
  width : ℕ
  height : ℕ
  pixel : ℕ × ℕ → Px

/-- The tile of a pixel. -/
def tileOf (p : ℕ × ℕ) : ℕ × ℕ := (p.1 / tileSize, p.2 / tileSize)

/-- `tile_grid`. -/
def tileGrid (width height : ℕ) : ℕ × ℕ :=
  ((width + (tileSize - 1)) / tileSize, (height + (tileSize - 1)) / tileSize)

/-- `HISTORY_CAPACITY`. -/
def historyCapacity : ℕ := 256

variable {Px : Type*}

/-- `Framebuffer::resize`: what fits is kept, the rest is zero. -/
def Image.resize (fb : Image Px) (zero : Px) (width height : ℕ) : Image Px :=
  if fb.width = width ∧ fb.height = height then fb
  else
    ⟨width, height, fun p =>
      if p.1 < min fb.width width ∧ p.2 < min fb.height height then fb.pixel p else zero⟩

/-- The picture with the rectangles taken over from the framebuffer. -/
def Image.blit (image fb : Image Px) (rects : List Rect) : Image Px :=
  { image with
    pixel := patch (fun p => rects.any fun r => decide (r.Covers p.1 p.2)) fb.pixel image.pixel }

/-- `ExportBuffer`. -/
structure ExportBuffer (Px : Type*) where
  image : Image Px
  filledAtGen : Option ℕ := none
  inFlight : Bool := false

structure SincePrevious where
  frameId : UInt32
  damage : List Rect
  deriving DecidableEq

structure PublishPlan where
  bufferId : ℕ
  gen : ℕ
  pixelRects : List Rect
  sincePrevious : Option SincePrevious

structure PublishedFrame where
  frameId : UInt32
  bufferId : ℕ
  damage : List Rect
  sincePrevious : Option SincePrevious
  width : ℕ
  height : ℕ
  deriving DecidableEq

structure ExportRing (Px : Type*) where
  buffers : List (ExportBuffer Px)
  history : DirtyHistory
  nextFrameId : UInt32 := 0
  lastPublish : Option (UInt32 × ℕ) := none
  inFlight : Dict UInt32 ℕ := .empty
  graveyard : Dict UInt32 (ExportBuffer Px) := .empty
  width : ℕ
  height : ℕ

/-- `count` buffers of this size, as allocated. -/
def allocate (count width height : ℕ) (content : ℕ → ℕ × ℕ → Px) : List (ExportBuffer Px) :=
  (List.range count).map fun i => { image := ⟨width, height, content i⟩ }

namespace ExportRing

/-- `new`. -/
def new (width height count : ℕ) (content : ℕ → ℕ × ℕ → Px) : ExportRing Px where
  buffers := allocate count width height content
  history := .new (tileGrid width height).1 (tileGrid width height).2 historyCapacity
  width
  height

variable (ring : ExportRing Px)

/-- `mark_dirty`. -/
def markDirty (tx ty : ℕ) : ExportRing Px :=
  { ring with history := ring.history.markTile tx ty }

/-- The tiles of a grid, row by row. -/
def gridTiles (cols rows : ℕ) : List (ℕ × ℕ) :=
  (List.range rows).flatMap fun ty => (List.range cols).map fun tx => (tx, ty)

/-- `mark_dirty_all`. -/
def markDirtyAll : ExportRing Px :=
  let (cols, rows) := tileGrid ring.width ring.height
  { ring with
    history := (gridTiles cols rows).foldl (fun h t => h.markTile t.1 t.2) ring.history }

/-- The tiles to copy into a buffer filled at that generation, as rectangles. -/
def staleRects (filledAtGen : Option ℕ) : List Rect :=
  match ring.history.unionSince filledAtGen with
  | some dirty => coalesce dirty
  | none => [⟨0, 0, (tileGrid ring.width ring.height).1, (tileGrid ring.width ring.height).2⟩]

variable (fb : Image Px)

/-- `plan_publish`: the generation is sealed also when every buffer is held. -/
def planPublish : ExportRing Px × Option PublishPlan :=
  let (gen, history) := ring.history.advance
  let ring := { ring with history }
  match ring.buffers.findIdx? fun b => !b.inFlight with
  | none => (ring, none)
  | some bufferId =>
    let rects := ring.staleRects (ring.buffers[bufferId]?.bind ExportBuffer.filledAtGen)
    let sincePrevious := ring.lastPublish.bind fun (frameId, prevGen) =>
      (history.unionSince (some prevGen)).map fun dirty =>
        { frameId, damage := (coalesce dirty).map fun r => r.toPixels fb.width fb.height }
    (ring,
      some
        { bufferId, gen, sincePrevious
          pixelRects := rects.map fun r => r.toPixels fb.width fb.height })

/-- `encode_blit`, once it has run. -/
def encodeBlit (plan : PublishPlan) : ExportRing Px :=
  { ring with
    buffers := ring.buffers.modify plan.bufferId fun b =>
      { b with image := b.image.blit fb plan.pixelRects } }

/-- `finish_publish`. -/
def finishPublish (plan : PublishPlan) : ExportRing Px × PublishedFrame :=
  let buffers := ring.buffers.modify plan.bufferId fun b =>
    { b with filledAtGen := some plan.gen, inFlight := true }
  let frameId := ring.nextFrameId
  ({ ring with
      buffers
      nextFrameId := frameId + 1
      inFlight := ring.inFlight.insert frameId plan.bufferId
      lastPublish := some (frameId, plan.gen) },
    { frameId
      bufferId := plan.bufferId
      damage := plan.pixelRects
      sincePrevious := plan.sincePrevious
      width := (buffers[plan.bufferId]?.map fun b => b.image.width).getD 0
      height := (buffers[plan.bufferId]?.map fun b => b.image.height).getD 0 })

/-- `publish`: none when every buffer is held. -/
def publish : ExportRing Px × Option PublishedFrame :=
  match ring.planPublish fb with
  | (ring, none) => (ring, none)
  | (ring, some plan) =>
    let (ring, frame) := (ring.encodeBlit fb plan).finishPublish plan
    (ring, some frame)

/-- `release`: an unknown frame is ignored. -/
def release (frameId : UInt32) : ExportRing Px :=
  match ring.graveyard.get? frameId with
  | some _ => { ring with graveyard := ring.graveyard.erase frameId }
  | none =>
    match ring.inFlight.get? frameId with
    | some bufferId =>
      { ring with
        inFlight := ring.inFlight.erase frameId
        buffers := ring.buffers.modify bufferId fun b => { b with inFlight := false } }
    | none => ring

/-- One entry of `in_flight` on a resize: its buffer goes to the graveyard, if still there. -/
def retire (st : List (Option (ExportBuffer Px)) × Dict UInt32 (ExportBuffer Px))
    (entry : UInt32 × ℕ) : List (Option (ExportBuffer Px)) × Dict UInt32 (ExportBuffer Px) :=
  match st.1[entry.2]? with
  | some (some b) => (st.1.set entry.2 none, st.2.insert entry.1 b)
  | _ => st

/-- `resize`: fails, changing nothing, when a buffer cannot be allocated. -/
def resize (width height : ℕ) (content : ℕ → ℕ × ℕ → Px) (allocated : Bool) : ExportRing Px :=
  if width = ring.width ∧ height = ring.height then ring
  else if !allocated then ring
  else
    let old := ring.buffers.map some
    { ring with
      buffers := allocate ring.buffers.length width height content
      graveyard := (ring.inFlight.toList.foldl retire (old, ring.graveyard)).2
      inFlight := .empty
      width
      height
      lastPublish := none
      history := ring.history.reset (tileGrid width height).1 (tileGrid width height).2 }

/-- The buffer of an outstanding frame. -/
def held (frameId : UInt32) : Option (ExportBuffer Px) :=
  match ring.graveyard.get? frameId with
  | some b => some b
  | none => (ring.inFlight.get? frameId).bind fun bufferId => ring.buffers[bufferId]?

/-! ### What an operation can do -/

/-- The ring with the generation under way sealed. -/
def sealedRing : ExportRing Px :=
  { ring with history := ring.history.advance.2 }

/-- The rectangles copied into a buffer, in pixels. -/
def blitRects (b : ExportBuffer Px) : List Rect :=
  (ring.sealedRing.staleRects b.filledAtGen).map fun r => r.toPixels fb.width fb.height

/-- The damage named against the previous publish. -/
def namedDamage : Option SincePrevious :=
  ring.lastPublish.bind fun (frameId, prevGen) =>
    (ring.history.advance.2.unionSince (some prevGen)).map fun dirty =>
      { frameId, damage := (coalesce dirty).map fun r => r.toPixels fb.width fb.height }

/-- The buffer once it is published. -/
def filled (b : ExportBuffer Px) : ExportBuffer Px :=
  ⟨b.image.blit fb (ring.blitRects fb b), some ring.history.nextGen, true⟩

variable (fb : Image Px)

theorem planPublish_full {ring : ExportRing Px}
    (hfull : ring.buffers.findIdx? (fun b => !b.inFlight) = none) :
    ring.planPublish fb = (ring.sealedRing, none) := by
  simp only [planPublish, DirtyHistory.advance, hfull]
  rfl

theorem planPublish_free {ring : ExportRing Px} {bufferId : ℕ}
    {b : ExportBuffer Px} (hfree : ring.buffers.findIdx? (fun b => !b.inFlight) = some bufferId)
    (hget : ring.buffers[bufferId]? = some b) :
    ring.planPublish fb =
      (ring.sealedRing, some ⟨bufferId, ring.history.nextGen, ring.blitRects fb b,
        ring.namedDamage fb⟩) := by
  simp only [planPublish, DirtyHistory.advance, hfree, hget]
  rfl

theorem modify_of_getElem? {α : Type*} {l : List α} {i : ℕ} {a : α} (h : l[i]? = some a)
    (f : α → α) : l.modify i f = l.set i (f a) := by
  simp [modify_eq_set_getElem?, h]

/-- Every buffer is held, or a free one is filled and handed out. -/
theorem publish_cases : ring.publish fb = (ring.sealedRing, none) ∨
      ∃ bufferId b, ring.buffers[bufferId]? = some b ∧ b.inFlight = false ∧
        ring.publish fb =
          ({ ring.sealedRing with
              buffers := ring.buffers.set bufferId (ring.filled fb b)
              nextFrameId := ring.nextFrameId + 1
              inFlight := ring.inFlight.insert ring.nextFrameId bufferId
              lastPublish := some (ring.nextFrameId, ring.history.nextGen) },
            some ⟨ring.nextFrameId, bufferId, ring.blitRects fb b, ring.namedDamage fb,
              b.image.width, b.image.height⟩) := by
  rcases hfree : ring.buffers.findIdx? fun b => !b.inFlight with _ | bufferId
  · left
    rw [publish, planPublish_full fb hfree]
  · right
    obtain ⟨hlt, hb, -⟩ := findIdx?_eq_some_iff_getElem.1 hfree
    have hget : ring.buffers[bufferId]? = some ring.buffers[bufferId] := getElem?_eq_getElem hlt
    refine ⟨bufferId, ring.buffers[bufferId], hget, by simpa using hb, ?_⟩
    generalize ring.buffers[bufferId] = b at hget
    have hsealed : ring.sealedRing.buffers[bufferId]? = some b := hget
    have hblit : (ring.sealedRing.buffers.set bufferId
        { b with image := b.image.blit fb (ring.blitRects fb b) })[bufferId]? =
          some { b with image := b.image.blit fb (ring.blitRects fb b) } := by
      simp [sealedRing, hlt]
    rw [publish, planPublish_free fb hfree hget]
    simp only [encodeBlit, finishPublish, modify_of_getElem? hsealed, modify_of_getElem? hblit,
      set_set]
    simp [sealedRing, filled, hlt, Image.blit]

/-- Nothing is known of the frame, its buffer is retired, or it comes back to the ring. -/
theorem release_cases (frameId : UInt32) :
    (ring.graveyard.get? frameId = none ∧ ring.inFlight.get? frameId = none ∧
        ring.release frameId = ring) ∨
      (∃ b, ring.graveyard.get? frameId = some b ∧
        ring.release frameId = { ring with graveyard := ring.graveyard.erase frameId }) ∨
      ∃ bufferId, ring.graveyard.get? frameId = none ∧ ring.inFlight.get? frameId = some bufferId ∧
        ring.release frameId =
          { ring with
            inFlight := ring.inFlight.erase frameId
            buffers := ring.buffers.modify bufferId fun b => { b with inFlight := false } } := by
  unfold release
  rcases hgrave : ring.graveyard.get? frameId with _ | b
  · rcases hflight : ring.inFlight.get? frameId with _ | bufferId
    · exact .inl ⟨rfl, rfl, rfl⟩
    · exact .inr (.inr ⟨bufferId, rfl, rfl, rfl⟩)
  · exact .inr (.inl ⟨b, rfl, rfl⟩)

/-- Retiring distinct buffers moves each of them. -/
theorem foldl_retire {entries : List (UInt32 × ℕ)} (hkeys : (entries.map Prod.fst).Nodup)
    (hbuffers : (entries.map Prod.snd).Nodup) {old : List (Option (ExportBuffer Px))}
    (hold : ∀ e ∈ entries, ∃ b, old[e.2]? = some (some b))
    (graveyard : Dict UInt32 (ExportBuffer Px)) :
    (∀ e ∈ entries, ∀ b, old[e.2]? = some (some b) →
        (entries.foldl retire (old, graveyard)).2.get? e.1 = some b) ∧
      ∀ frameId, frameId ∉ entries.map Prod.fst →
        (entries.foldl retire (old, graveyard)).2.get? frameId = graveyard.get? frameId := by
  induction entries generalizing old graveyard with
  | nil => simp
  | cons e entries ih =>
    obtain ⟨hkey, hkeys⟩ := nodup_cons.1 hkeys
    obtain ⟨hbuffer, hbuffers⟩ := nodup_cons.1 hbuffers
    obtain ⟨b, hb⟩ := hold e mem_cons_self
    have hretire : retire (old, graveyard) e = (old.set e.2 none, graveyard.insert e.1 b) := by
      simp only [retire, hb]
    have hother : ∀ e' ∈ entries, (old.set e.2 none)[e'.2]? = old[e'.2]? := by
      intro e' he'
      refine getElem?_set_ne ?_
      intro heq
      exact hbuffer (heq ▸ mem_map_of_mem he')
    obtain ⟨hmoved, hkept⟩ := ih hkeys hbuffers
      (fun e' he' => (hother e' he').symm ▸ hold e' (mem_cons_of_mem _ he'))
      (graveyard.insert e.1 b)
    rw [foldl_cons, hretire]
    refine ⟨fun e' he' b' hb' => ?_, fun frameId hout => ?_⟩
    · rcases mem_cons.1 he' with rfl | he'
      · rw [hkept _ hkey, Dict.get?_insert_self]
        rw [hb] at hb'
        exact (Option.some.inj hb')
      · exact hmoved e' he' b' ((hother e' he').trans hb')
    · obtain ⟨hne, hout⟩ := not_or.1 (fun h => hout (mem_cons.2 h))
      rw [hkept _ hout, Dict.get?_insert_ne _ _ hne]

end ExportRing

end Ghostframe.Gpu
