import Ghostframe.Gpu.Ring
import Ghostframe.Lib.Run

/-!
# Published buffers are exact

The renderer's framebuffer, the export ring, and what the host was given, under every
sequence of tile writes, marks, publishes, releases, withdrawals and resizes.

* `Tracked`: a filled buffer differs from the framebuffer only in tiles marked since it was
  filled, or not marked yet;
* `Custody`: the frames in flight name distinct buffers, the retired ones are in the
  graveyard, and the picture of every frame the host holds is what it was given;
* `published_exact`: a publish hands out the framebuffer pixel for pixel, names damage that
  covers what differs from the frame before, and goes to no buffer the host holds;
* `resize_unallocated`: the framebuffer is resized before the ring, whose buffers may then
  fail to be allocated: the next publish hands out a picture of the old size.
-/

namespace Ghostframe.Gpu

open Dict ExportRing List Nat Option

variable {Px : Type*}

/-- A frame given to the host: the picture its buffer showed. -/
structure Handed (Px : Type*) where
  frameId : UInt32
  picture : Image Px

/-- The framebuffer and the ring, the tiles written and not marked yet, and what the host was
given: how many frames, the last of them, and those it has not released. -/
structure Client (Px : Type*) where
  fb : Image Px
  ring : ExportRing Px
  unmarked : List (ℕ × ℕ) := []
  published : ℕ := 0
  previous : Option (Handed Px) := none
  holds : List (Handed Px) := []

/-- What the client does. -/
inductive RingOp (Px : Type*)
  /-- a tile of the framebuffer is drawn -/
  | write (tx ty : ℕ) (paint : ℕ × ℕ → Px)
  | markDirty (tx ty : ℕ)
  | markDirtyAll
  | publish
  /-- a flush fails between the copy and the end of its publish -/
  | abandon
  | release (frameId : UInt32)
  | withdrawFrame (frameId : UInt32)
  /-- new frame dimensions, with what new buffers hold and whether they can be allocated -/
  | resize (width height : ℕ) (content : ℕ → ℕ × ℕ → Px) (allocated : Bool)

namespace Client

/-- A framebuffer and a ring of this size. -/
def start (fb : Image Px) (count : ℕ) (content : ℕ → ℕ × ℕ → Px) : Client Px where
  fb
  ring := .new fb.width fb.height count content

variable (s : Client Px)

/-- Draw a tile. -/
def write (tx ty : ℕ) (paint : ℕ × ℕ → Px) : Client Px :=
  { s with
    fb := { s.fb with pixel := fun p => if tileOf p = (tx, ty) then paint p else s.fb.pixel p }
    unmarked := (tx, ty) :: s.unmarked }

/-- Publish, and hand the frame to the host. -/
def publish (s : Client Px) : Client Px × Option PublishedFrame :=
  match s.ring.publish s.fb with
  | (ring, none) => ({ s with ring }, none)
  | (ring, some frame) =>
    let handed := ring.buffers[frame.bufferId]?.map fun b => ⟨frame.frameId, b.image⟩
    ({ s with
        ring
        published := s.published + 1
        previous := handed
        holds := handed.toList ++ s.holds },
      some frame)

/-- A publish is planned and its copy submitted, but it is not finished. -/
def abandon (s : Client Px) : Client Px :=
  match s.ring.planPublish s.fb with
  | (ring, none) => { s with ring }
  | (ring, some plan) => { s with ring := ring.encodeBlit s.fb plan }

/-- The host is done with a frame. -/
def release (s : Client Px) (frameId : UInt32) : Client Px :=
  { s with
    ring := s.ring.release frameId
    holds := s.holds.filter fun h => h.frameId != frameId }

/-- Mark every tile. -/
def markDirtyAll (s : Client Px) : Client Px :=
  { s with ring := s.ring.markDirtyAll, unmarked := [] }

/-- `FrameDimensions`: the framebuffer first, then the ring, whose failure is only logged. -/
def resize [Inhabited Px] (s : Client Px) (width height : ℕ) (content : ℕ → ℕ × ℕ → Px)
    (allocated : Bool) : Client Px :=
  { s with
    fb := s.fb.resize default width height
    ring := s.ring.resize width height content allocated }

def step [Inhabited Px] (s : Client Px) : RingOp Px → Client Px
  | .write tx ty paint => s.write tx ty paint
  | .markDirty tx ty =>
    { s with
      ring := s.ring.markDirty tx ty
      unmarked := s.unmarked.filter fun t => t != (tx, ty) }
  | .markDirtyAll => s.markDirtyAll
  | .publish => s.publish.1
  | .abandon => s.abandon
  | .release frameId => s.release frameId
  | .withdrawFrame frameId => (s.release frameId).markDirtyAll
  | .resize width height content allocated => s.resize width height content allocated

/-- Tiles are marked before a publish, there are fewer than `2 ^ 32` of those, and the buffers
of another size can be allocated. -/
def Orderly : RingOp Px → Prop
  | .publish => s.unmarked = [] ∧ s.published + 1 < 2 ^ 32
  | .resize width height _ allocated =>
    allocated = true ∨ (width = s.ring.width ∧ height = s.ring.height)
  | _ => True

/-! ### What a buffer may lack -/

/-- The pixels outside the frame, and those of some tiles. -/
def region (width height : ℕ) (tiles : Set (ℕ × ℕ)) : Set (ℕ × ℕ) :=
  {p | p.1 < width → p.2 < height → tileOf p ∈ tiles}

/-- The picture differs from the framebuffer only in tiles marked since the generation, or not
marked yet. -/
def Stale (log : ChangeLog (ℕ × ℕ)) (gen : ℕ) (image : Image Px) : Prop :=
  DiffersWithin (region s.fb.width s.fb.height ({t | t ∈ s.unmarked} ∪ log.since gen)) image.pixel
    s.fb.pixel

/-- The picture has the ring's size. -/
def SizedAs (ring : ExportRing Px) (image : Image Px) : Prop :=
  image.width = ring.width ∧ image.height = ring.height

/-- What changed since a buffer was filled is in the history. -/
structure Tracked (s : Client Px) (log : ChangeLog (ℕ × ℕ)) : Prop where
  history : s.ring.history.Represents log
  grid : (s.ring.history.cols, s.ring.history.rows) = tileGrid s.ring.width s.ring.height
  size : SizedAs s.ring s.fb
  buffers : ∀ b ∈ s.ring.buffers, SizedAs s.ring b.image ∧
    ∀ gen ∈ b.filledAtGen, gen < log.next ∧ s.Stale log gen b.image
  previous : ∀ p ∈ s.ring.lastPublish, p.2 < log.next ∧ ∃ h ∈ s.previous, h.frameId = p.1 ∧
    SizedAs s.ring h.picture ∧ s.Stale log p.2 h.picture

variable {ring : ExportRing Px} {s : Client Px} {log : ChangeLog (ℕ × ℕ)} {width : ℕ} {id : UInt32}
  {height : ℕ} {b : ExportBuffer Px} {p : ℕ × ℕ}

theorem tileOf_lt (hx : p.1 < width) (hy : p.2 < height) :
    (tileOf p).1 < (tileGrid width height).1 ∧ (tileOf p).2 < (tileGrid width height).2 := by
  simp only [tileOf, tileGrid, tileSize]
  omega

theorem region_mono {S T : Set (ℕ × ℕ)}
    (h : ∀ t ∈ S, t.1 < (tileGrid width height).1 → t.2 < (tileGrid width height).2 → t ∈ T) :
    region width height S ⊆ region width height T := by
  intro p hp hx hy
  obtain ⟨hcol, hrow⟩ := tileOf_lt hx hy
  exact h _ (hp hx hy) hcol hrow

/-- Steps that fill no buffer keep what they lack in the history. -/
theorem Tracked.weaken {s' : Client Px} {log' : ChangeLog (ℕ × ℕ)} (h : s.Tracked log)
    (hrep : s'.ring.history.Represents log') (hgrid : (s'.ring.history.cols, s'.ring.history.rows) =
      (s.ring.history.cols, s.ring.history.rows))
    (hring : s'.ring.width = s.ring.width ∧ s'.ring.height = s.ring.height)
    (hfb : s'.fb.width = s.fb.width ∧ s'.fb.height = s.fb.height)
    (hbuffers : ∀ b' ∈ s'.ring.buffers, ∃ b ∈ s.ring.buffers,
      b'.image = b.image ∧ b'.filledAtGen = b.filledAtGen)
    (hlast : s'.ring.lastPublish = s.ring.lastPublish) (hprevious : s'.previous = s.previous)
    (hnext : log.next ≤ log'.next)
    (hstale : ∀ gen image, gen < log.next → s.Stale log gen image → s'.Stale log' gen image) :
    s'.Tracked log' where
  history := hrep
  grid := by rw [hgrid, h.grid, hring.1, hring.2]
  size := by
    simp only [SizedAs, hfb.1, hfb.2, hring.1, hring.2]
    exact h.size
  buffers b' hb' := by
    obtain ⟨b, hb, himage, hfilled⟩ := hbuffers b' hb'
    obtain ⟨hsized, hgen⟩ := h.buffers b hb
    rw [himage, hfilled]
    refine ⟨by simp only [SizedAs, hring.1, hring.2]; exact hsized, fun gen hg => ?_⟩
    obtain ⟨hlt, hb⟩ := hgen gen hg
    exact ⟨hlt.trans_le hnext, hstale gen _ hlt hb⟩
  previous p hp := by
    rw [hlast] at hp
    obtain ⟨hlt, handed, hmem, hid, hsized, hb⟩ := h.previous p hp
    refine ⟨hlt.trans_le hnext, handed, hprevious ▸ hmem, hid, ?_, hstale p.2 _ hlt hb⟩
    simp only [SizedAs, hring.1, hring.2]
    exact hsized

theorem Tracked.write (h : s.Tracked log) (tx ty : ℕ) (paint : ℕ × ℕ → Px) :
    (s.write tx ty paint).Tracked log := by
  refine h.weaken h.history rfl ⟨rfl, rfl⟩ ⟨rfl, rfl⟩ (fun b hb => ⟨b, hb, rfl, rfl⟩) rfl rfl le_rfl
    fun gen image _ hstale p hp hx hy => ?_
  by_cases htile : tileOf p = (tx, ty)
  · exact .inl (mem_cons.2 (.inl htile))
  · have hsame : (s.write tx ty paint).fb.pixel p = s.fb.pixel p := if_neg htile
    rw [hsame] at hp
    rcases hstale p hp hx hy with hmem | hmem
    · exact .inl (mem_cons_of_mem _ hmem)
    · exact .inr hmem

/-- Marks move tiles from the unmarked ones to the history. -/
theorem Tracked.marked (h : s.Tracked log) (tiles : List (ℕ × ℕ)) {unmarked : List (ℕ × ℕ)}
    (hmarked : ∀ t ∈ s.unmarked, t.1 < s.ring.history.cols → t.2 < s.ring.history.rows →
      t ∈ unmarked ∨ t ∈ tiles) :
    ∃ log', Tracked
      { s with
        ring := { s.ring with
          history := tiles.foldl (fun h t => h.markTile t.1 t.2) s.ring.history }
        unmarked } log' := by
  obtain ⟨hsameCols, hsameRows⟩ := s.ring.history.foldl_markTile_shape tiles
  refine ⟨_, h.weaken (h.history.markTiles tiles) ?_ ⟨rfl, rfl⟩ ⟨rfl, rfl⟩
    (fun b hb => ⟨b, hb, rfl, rfl⟩) rfl rfl le_rfl fun gen image _ hstale => ?_⟩
  · exact Prod.ext hsameCols hsameRows
  · refine hstale.mono (region_mono fun t ht hcol hrow => ?_)
    obtain ⟨hcols, hrows⟩ := Prod.ext_iff.1 h.grid
    rw [h.size.1, h.size.2, ← hcols] at hcol
    rw [h.size.1, h.size.2, ← hrows] at hrow
    rcases ht with ht | ht
    · rcases hmarked t ht hcol hrow with hun | hin
      · exact .inl hun
      · exact .inr (log.subset_since_mark _ gen (.inr ⟨hin, hcol, hrow⟩))
    · exact .inr (log.subset_since_mark _ gen (.inl ht))

theorem Tracked.markDirty (h : s.Tracked log) (tx ty : ℕ) :
    ∃ log', Tracked
      { s with
        ring := s.ring.markDirty tx ty
        unmarked := s.unmarked.filter fun t => t != (tx, ty) } log' := by
  refine h.marked [(tx, ty)] fun t ht _ _ => ?_
  by_cases htile : t = (tx, ty)
  · exact .inr (mem_singleton.2 htile)
  · exact .inl (mem_filter.2 ⟨ht, by simpa using htile⟩)

theorem mem_gridTiles {cols rows : ℕ} {t : ℕ × ℕ} :
    t ∈ ExportRing.gridTiles cols rows ↔ t.1 < cols ∧ t.2 < rows := by
  obtain ⟨tx, ty⟩ := t
  simp only [ExportRing.gridTiles, List.mem_flatMap, List.mem_range, List.mem_map, Prod.mk.injEq]
  constructor
  · rintro ⟨y, hy, x, hx, rfl, rfl⟩
    exact ⟨hx, hy⟩
  · rintro ⟨hx, hy⟩
    exact ⟨ty, hy, tx, hx, rfl, rfl⟩

theorem Tracked.markDirtyAll (h : s.Tracked log) : ∃ log', s.markDirtyAll.Tracked log' := by
  obtain ⟨hcols, hrows⟩ := Prod.ext_iff.1 h.grid
  refine h.marked _ fun t _ hcol hrow => .inr (mem_gridTiles.2 ⟨?_, ?_⟩)
  · exact hcol.trans_eq hcols
  · exact hrow.trans_eq hrows

theorem Tracked.sealed (h : s.Tracked log) :
    Tracked { s with ring := s.ring.sealedRing } log.advance := by
  refine h.weaken h.history.advance rfl ⟨rfl, rfl⟩ ⟨rfl, rfl⟩ (fun b hb => ⟨b, hb, rfl, rfl⟩) rfl
    rfl (le_succ _) fun gen image hgen hstale => hstale.mono ?_
  refine region_mono fun t ht _ _ => ?_
  rcases ht with ht | ht
  · exact .inl ht
  · exact .inr (.inr (ChangeLog.since_advance hgen ▸ ht))

/-- Every buffer is held, or a free one is written and stays free. -/
theorem abandon_cases (s : Client Px) : s.abandon = { s with ring := s.ring.sealedRing } ∨
    ∃ bufferId b, s.ring.buffers[bufferId]? = some b ∧ b.inFlight = false ∧
      s.abandon = { s with ring := { s.ring.sealedRing with
        buffers := s.ring.buffers.set bufferId
          { b with image := b.image.blit s.fb (s.ring.blitRects s.fb b) } } } := by
  rcases hfree : s.ring.buffers.findIdx? fun b => !b.inFlight with _ | bufferId
  · left
    rw [abandon, planPublish_full s.fb hfree]
  · right
    obtain ⟨hlt, hb, -⟩ := findIdx?_eq_some_iff_getElem.1 hfree
    have hget : s.ring.buffers[bufferId]? = some s.ring.buffers[bufferId] := getElem?_eq_getElem hlt
    refine ⟨bufferId, _, hget, by simpa using hb, ?_⟩
    rw [abandon, planPublish_free s.fb hfree hget]
    simp only [encodeBlit, sealedRing, modify_of_getElem? hget]

/-- What was copied from the framebuffer does not differ from it. -/
theorem Tracked.abandon (h : s.Tracked log) : s.abandon.Tracked log.advance := by
  obtain hnone | ⟨bufferId, b, hget, -, hsome⟩ := s.abandon_cases
  · rw [hnone]
    exact h.sealed
  · rw [hsome]
    refine { h.sealed with buffers := fun b' hb' => ?_ }
    rcases mem_or_eq_of_mem_set hb' with hold | rfl
    · exact h.sealed.buffers b' hold
    · obtain ⟨hsized, hgens⟩ := h.sealed.buffers b (mem_of_getElem? hget)
      refine ⟨hsized, fun gen hgen => ⟨(hgens gen hgen).1, fun p hne => (hgens gen hgen).2 p ?_⟩⟩
      intro heq
      refine hne ?_
      simp only [Image.blit, patch]
      split_ifs
      · rfl
      · exact heq

theorem Tracked.release (h : s.Tracked log) (frameId : UInt32) :
    (s.release frameId).Tracked log := by
  have hkeep : ∀ gen image, gen < log.next → s.Stale log gen image →
      (s.release frameId).Stale log gen image := fun _ _ _ hstale => hstale
  obtain ⟨-, -, hrel⟩ | ⟨b, -, hrel⟩ | ⟨bufferId, -, -, hrel⟩ := s.ring.release_cases frameId
  all_goals
    refine h.weaken ?_ ?_ ?_ ⟨rfl, rfl⟩ ?_ ?_ rfl le_rfl hkeep <;> simp only [Client.release, hrel]
  any_goals exact h.history
  any_goals exact And.intro trivial trivial
  · exact fun b hb => ⟨b, hb, rfl, rfl⟩
  · exact fun b hb => ⟨b, hb, rfl, rfl⟩
  · intro b' hb'
    obtain ⟨i, hi⟩ := mem_iff_getElem?.1 hb'
    rw [getElem?_modify] at hi
    obtain ⟨b, hb, rfl⟩ := map_eq_some_iff.1 hi
    refine ⟨b, mem_of_getElem? hb, ?_, ?_⟩ <;> split_ifs <;> rfl

/-! ### What a publish copies and names -/

/-- Tiles noted since a generation are inside the rectangles made of the history's answer. -/
theorem Tracked.covers_answer (h : s.Tracked log) {gen : ℕ} (hgen : gen < log.next)
    {dirty : DirtyGrid} (hdirty : s.ring.history.advance.2.unionSince (some gen) = some dirty)
    (hx : p.1 < s.fb.width) (hy : p.2 < s.fb.height) (hp : tileOf p ∈ log.since gen) :
    ∃ r ∈ (coalesce dirty).map fun r => r.toPixels s.fb.width s.fb.height, r.Covers p.1 p.2 := by
  obtain ⟨-, hbits⟩ := h.history.advance.unionSince_spec (lt_succ_of_lt hgen) hdirty
  rw [← ChangeLog.since_advance hgen] at hp
  obtain ⟨r, hr, hcovers⟩ := (covers_coalesce dirty _ _).2 ((hbits _ _).2 hp)
  refine ⟨_, mem_map_of_mem hr, (r.covers_toPixels _ _ _ _).2 ⟨hcovers, hx, hy⟩⟩

/-- Once every tile is marked, the planned copy makes a buffer the framebuffer. -/
theorem Tracked.blit_exact (h : s.Tracked log) (hmarked : s.unmarked = []) (hb : b ∈ s.ring.buffers)
    (hx : p.1 < s.fb.width) (hy : p.2 < s.fb.height) :
    (s.ring.filled s.fb b).image.pixel p = s.fb.pixel p := by
  simp only [filled, Image.blit]
  refine patch_eq_at fun hne => ?_
  simp only [List.any_eq_true, decide_eq_true_eq]
  unfold blitRects staleRects sealedRing
  rcases hdirty : s.ring.history.advance.2.unionSince b.filledAtGen with _ | dirty
  · -- a full blit
    obtain ⟨hcol, hrow⟩ := tileOf_lt hx hy
    rw [h.size.1, h.size.2] at hcol hrow
    refine ⟨_, mem_map_of_mem (mem_singleton.2 rfl), ?_⟩
    refine (Rect.covers_toPixels _ _ _ _ _).2 ⟨⟨zero_le _, ?_, zero_le _, ?_⟩, hx, hy⟩
    · rw [zero_add]
      exact hcol
    · rw [zero_add]
      exact hrow
  · rcases hfilled : b.filledAtGen with _ | gen
    · rw [hfilled] at hdirty
      cases hdirty
    · rw [hfilled] at hdirty
      obtain ⟨hgen, hstale⟩ := (h.buffers b hb).2 gen hfilled
      rcases hstale p hne hx hy with hun | hsince
      · rw [hmarked] at hun
        cases hun
      · exact h.covers_answer hgen hdirty hx hy hsince

/-- Named damage is against the previous frame, and covers what differs from it. -/
theorem Tracked.covers_named (h : s.Tracked log) (hmarked : s.unmarked = []) {since : SincePrevious}
    (hsince : s.ring.namedDamage s.fb = some since) :
    ∃ previous ∈ s.previous, previous.frameId = since.frameId ∧
      previous.picture.width = s.fb.width ∧ previous.picture.height = s.fb.height ∧
      ∀ p : ℕ × ℕ, p.1 < s.fb.width → p.2 < s.fb.height →
        previous.picture.pixel p ≠ s.fb.pixel p → ∃ r ∈ since.damage, r.Covers p.1 p.2 := by
  unfold namedDamage at hsince
  rcases hlast : s.ring.lastPublish with _ | ⟨frameId, prevGen⟩
  · rw [hlast] at hsince
    cases hsince
  rw [hlast] at hsince
  obtain ⟨dirty, hdirty, rfl⟩ := map_eq_some_iff.1 hsince
  obtain ⟨hgen, previous, hmem, hid, hsized, hstale⟩ := h.previous _ hlast
  refine ⟨previous, hmem, hid, hsized.1.trans h.size.1.symm, hsized.2.trans h.size.2.symm,
    fun p hx hy hne => ?_⟩
  rcases hstale p hne hx hy with hun | hin
  · rw [hmarked] at hun
    cases hun
  · exact h.covers_answer hgen hdirty hx hy hin

theorem Tracked.publish (h : s.Tracked log) (hmarked : s.unmarked = []) :
    s.publish.1.Tracked log.advance := by
  have hsealed := h.sealed
  obtain hnone | ⟨bufferId, b, hget, -, hsome⟩ := s.ring.publish_cases s.fb
  · simp only [Client.publish, hnone]
    exact hsealed
  have hb : b ∈ s.ring.buffers := mem_of_getElem? hget
  have hlt : bufferId < s.ring.buffers.length := (List.getElem?_eq_some_iff.1 hget).1
  simp only [Client.publish, hsome, getElem?_set_self hlt, map_some, toList_some]
  -- the new picture is the framebuffer, so it lacks nothing
  have hexact : ∀ gen, ({ s with ring := s.ring.sealedRing } : Client Px).Stale log.advance gen
      (s.ring.filled s.fb b).image := by
    intro gen p hne hx hy
    exact absurd (h.blit_exact hmarked hb hx hy) hne
  have hnext : s.ring.history.nextGen < log.advance.next := by
    rw [← h.history.next]
    exact lt_succ_self _
  have hfilled : SizedAs s.ring (s.ring.filled s.fb b).image := (h.buffers b hb).1
  constructor
  · exact hsealed.history
  · exact hsealed.grid
  · exact hsealed.size
  · intro b' hb'
    rcases mem_or_eq_of_mem_set hb' with hold | rfl
    · exact hsealed.buffers b' hold
    · refine ⟨hfilled, fun gen hgen => ?_⟩
      obtain rfl := some.inj hgen
      exact ⟨hnext, hexact _⟩
  · intro p hp
    obtain rfl := some.inj hp
    exact ⟨hnext, _, rfl, rfl, hfilled, hexact _⟩

theorem Tracked.resize [Inhabited Px] (h : s.Tracked log) (content : ℕ → ℕ × ℕ → Px)
    {allocated : Bool}
    (horderly : allocated = true ∨ (width = s.ring.width ∧ height = s.ring.height)) :
    ∃ log', (s.resize width height content allocated).Tracked log' := by
  by_cases hsame : width = s.ring.width ∧ height = s.ring.height
  · have hring : s.ring.resize width height content allocated = s.ring := if_pos hsame
    have hfb : s.fb.resize default width height = s.fb :=
      if_pos ⟨h.size.1.trans hsame.1.symm, h.size.2.trans hsame.2.symm⟩
    simp only [Client.resize, hring, hfb]
    exact ⟨log, h⟩
  · obtain rfl : allocated = true := horderly.resolve_right hsame
    have hother : ¬ (s.fb.width = width ∧ s.fb.height = height) := by
      rw [h.size.1, h.size.2]
      exact fun heq => hsame ⟨heq.1.symm, heq.2.symm⟩
    refine ⟨.empty, ?_⟩
    simp only [Client.resize, ExportRing.resize, if_neg hsame, Image.resize, if_neg hother]
    constructor
    · exact h.history.reset _ _
    · rfl
    · exact ⟨rfl, rfl⟩
    · intro b hb
      obtain ⟨i, -, rfl⟩ := mem_map.1 hb
      exact ⟨⟨rfl, rfl⟩, fun gen hgen => nomatch hgen⟩
    · exact fun p hp => nomatch hp

/-! ### What the host holds -/

/-- The frames out, and the pictures the host was given. -/
structure Custody (s : Client Px) : Prop where
  nextId : s.ring.nextFrameId.toNat = s.published
  flights : ∀ id bufferId, s.ring.inFlight.get? id = some bufferId → id.toNat < s.published ∧
    s.ring.graveyard.get? id = none ∧
    ∃ b, s.ring.buffers[bufferId]? = some b ∧ b.inFlight = true
  distinct : ∀ id id' bufferId, s.ring.inFlight.get? id = some bufferId →
    s.ring.inFlight.get? id' = some bufferId → id = id'
  retired : ∀ id b, s.ring.graveyard.get? id = some b → id.toNat < s.published
  holds : ∀ h ∈ s.holds, ∃ b, s.ring.held h.frameId = some b ∧ b.image = h.picture

/-- A frame that is out is in the graveyard, or in flight. -/
theorem held_cases (h : ring.held id = some b) :
    ring.graveyard.get? id = some b ∨
      (ring.graveyard.get? id = none ∧ ∃ bufferId, ring.inFlight.get? id = some bufferId ∧
        ring.buffers[bufferId]? = some b) := by
  unfold held at h
  rcases hgrave : ring.graveyard.get? id with _ | b'
  · rw [hgrave] at h
    obtain ⟨bufferId, hid, hget⟩ := bind_eq_some_iff.1 h
    exact .inr ⟨rfl, bufferId, hid, hget⟩
  · rw [hgrave] at h
    exact .inl h

theorem held_of_flight (bufferId : ℕ) (hgrave : ring.graveyard.get? id = none)
    (hid : ring.inFlight.get? id = some bufferId) : ring.held id = ring.buffers[bufferId]? := by
  simp only [held, hgrave, hid, bind_some]

theorem held_of_grave (hgrave : ring.graveyard.get? id = some b) : ring.held id = some b := by
  simp only [held, hgrave]

/-- A frame stays out as long as its entries stay. -/
theorem held_of_held {ring' : ExportRing Px} (h : ring.held id = some b)
    (hgrave : ring'.graveyard.get? id = ring.graveyard.get? id)
    (hflight : ∀ bufferId, ring.inFlight.get? id = some bufferId →
      ring'.inFlight.get? id = some bufferId ∧ ring'.buffers[bufferId]? = ring.buffers[bufferId]?) :
    ring'.held id = some b := by
  obtain hin | ⟨hnone, bufferId, hid, hget⟩ := held_cases h
  · exact held_of_grave (hgrave.trans hin)
  · obtain ⟨hid', hbuffer⟩ := hflight bufferId hid
    rw [held_of_flight bufferId (hgrave.trans hnone) hid', hbuffer, hget]

theorem Custody.lt_published (h : s.Custody) (hheld : s.ring.held id = some b) :
    id.toNat < s.published := by
  obtain hgrave | ⟨-, bufferId, hid, -⟩ := held_cases hheld
  · exact h.retired id b hgrave
  · exact (h.flights id bufferId hid).1

/-- Steps that touch no frame and no buffer of one. -/
theorem Custody.congr {s' : Client Px} (h : s.Custody)
    (hid : s'.ring.nextFrameId = s.ring.nextFrameId) (hpub : s'.published = s.published)
    (hflight : s'.ring.inFlight = s.ring.inFlight) (hgrave : s'.ring.graveyard = s.ring.graveyard)
    (hbuffers : ∀ id bufferId, s.ring.inFlight.get? id = some bufferId →
      s'.ring.buffers[bufferId]? = s.ring.buffers[bufferId]?) (hholds : s'.holds = s.holds) :
    s'.Custody where
  nextId := by rw [hid, hpub]; exact h.nextId
  flights := by
    rw [hflight, hgrave, hpub]
    intro id bufferId hin
    rw [hbuffers id bufferId hin]
    exact h.flights id bufferId hin
  distinct := by rw [hflight]; exact h.distinct
  retired := by rw [hgrave, hpub]; exact h.retired
  holds := by
    rw [hholds]
    intro handed hmem
    obtain ⟨b, hheld, himage⟩ := h.holds handed hmem
    refine ⟨b, held_of_held hheld (by rw [hgrave]) fun bufferId hin => ?_, himage⟩
    exact ⟨hflight ▸ hin, hbuffers _ bufferId hin⟩

/-- A free buffer is no frame's. -/
theorem Custody.not_in_flight (h : s.Custody) {bufferId : ℕ}
    (hget : s.ring.buffers[bufferId]? = some b) (hfree : b.inFlight = false) (id : UInt32) :
    s.ring.inFlight.get? id ≠ some bufferId := by
  intro hid
  obtain ⟨-, -, b', hget', hbusy⟩ := h.flights id bufferId hid
  rw [hget] at hget'
  obtain rfl := some.inj hget'
  rw [hfree] at hbusy
  cases hbusy

theorem Custody.publish (h : s.Custody) (hcount : s.published + 1 < 2 ^ 32) :
    s.publish.1.Custody := by
  obtain hnone | ⟨bufferId, b, hget, hfree, hsome⟩ := s.ring.publish_cases s.fb
  · simp only [Client.publish, hnone]
    exact h.congr rfl rfl rfl rfl (fun _ _ _ => rfl) rfl
  have hlt : bufferId < s.ring.buffers.length := (List.getElem?_eq_some_iff.1 hget).1
  have hnew := h.not_in_flight hget hfree
  have hfresh : ∀ id : UInt32, id.toNat < s.published → id ≠ s.ring.nextFrameId := by
    rintro id hid rfl
    rw [h.nextId] at hid
    exact lt_irrefl _ hid
  -- the buffer of a frame already out is another one
  have hother : ∀ id bufferId', s.ring.inFlight.get? id = some bufferId' →
      (s.ring.buffers.set bufferId (s.ring.filled s.fb b))[bufferId']? =
        s.ring.buffers[bufferId']? := by
    intro id bufferId' hid
    refine getElem?_set_ne ?_
    rintro rfl
    exact hnew id hid
  have hungraved : s.ring.graveyard.get? s.ring.nextFrameId = none := by
    rcases hgrave : s.ring.graveyard.get? s.ring.nextFrameId with _ | b'
    · rfl
    · exact absurd rfl (hfresh _ (h.retired _ _ hgrave))
  simp only [Client.publish, hsome, getElem?_set_self hlt, map_some, toList_some]
  constructor
  · rw [UInt32.toNat_add, h.nextId]
    exact mod_eq_of_lt hcount
  · intro id bufferId' hid
    rw [get?_insert] at hid
    split_ifs at hid with heq
    · obtain rfl := some.inj hid
      subst heq
      exact ⟨by rw [h.nextId]; exact lt_succ_self _, hungraved, _,
        getElem?_set_self hlt, rfl⟩
    · obtain ⟨hidlt, hgrave, b', hget', hbusy⟩ := h.flights id bufferId' hid
      exact ⟨lt_succ_of_lt hidlt, hgrave, b', (hother id bufferId' hid).trans hget', hbusy⟩
  · intro id id' bufferId' hid hid'
    rw [get?_insert] at hid hid'
    split_ifs at hid hid' with heq heq' heq'
    · exact heq.trans heq'.symm
    · obtain rfl := some.inj hid
      exact absurd hid' (hnew id')
    · obtain rfl := some.inj hid'
      exact absurd hid (hnew id)
    · exact h.distinct id id' bufferId' hid hid'
  · exact fun id b' hgrave => lt_succ_of_lt (h.retired id b' hgrave)
  · intro handed hmem
    rcases mem_append.1 hmem with hmem | hmem
    · obtain rfl := mem_singleton.1 hmem
      refine ⟨s.ring.filled s.fb b, ?_, rfl⟩
      rw [held_of_flight bufferId]
      · exact getElem?_set_self hlt
      · exact hungraved
      · exact get?_insert_self _ _ _
    · obtain ⟨b', hheld, himage⟩ := h.holds handed hmem
      refine ⟨b', held_of_held hheld rfl fun bufferId' hid => ⟨?_, hother _ bufferId' hid⟩, himage⟩
      exact (get?_insert_ne _ _ (hfresh _ (h.lt_published hheld))).trans hid

theorem Custody.release (h : s.Custody) (frameId : UInt32) : (s.release frameId).Custody := by
  have hkept : ∀ handed ∈ (s.release frameId).holds,
      handed ∈ s.holds ∧ handed.frameId ≠ frameId := by
    intro handed hmem
    obtain ⟨hmem, hne⟩ := mem_filter.1 hmem
    exact ⟨hmem, by simpa using hne⟩
  obtain ⟨hnograve, hnoflight, hrel⟩ | ⟨b, hgrave, hrel⟩ | ⟨bufferId, hnograve, hflight, hrel⟩ :=
    s.ring.release_cases frameId
  · have hring : (s.release frameId).ring = s.ring := hrel
    constructor
    · rw [hring]; exact h.nextId
    · rw [hring]; exact h.flights
    · rw [hring]; exact h.distinct
    · rw [hring]; exact h.retired
    · rw [hring]; exact fun handed hmem => h.holds handed (hkept handed hmem).1
  · have hring : (s.release frameId).ring =
        { s.ring with graveyard := s.ring.graveyard.erase frameId } := hrel
    constructor
    · rw [hring]; exact h.nextId
    · rw [hring]
      intro id bufferId hid
      obtain ⟨hlt, hnone, hb⟩ := h.flights id bufferId hid
      refine ⟨hlt, ?_, hb⟩
      rw [get?_erase, hnone, ite_self]
    · rw [hring]; exact h.distinct
    · rw [hring]
      exact fun id b' hid => h.retired id b' (get?_of_get?_erase hid).2
    · intro handed hmem
      obtain ⟨hmem, hne⟩ := hkept handed hmem
      obtain ⟨b', hheld, himage⟩ := h.holds handed hmem
      refine ⟨b', ?_, himage⟩
      rw [hring]
      exact held_of_held hheld (get?_erase_ne _ hne) fun _ hid => ⟨hid, rfl⟩
  · have hring : (s.release frameId).ring =
        { s.ring with
          inFlight := s.ring.inFlight.erase frameId
          buffers := s.ring.buffers.modify bufferId fun b => { b with inFlight := false } } := hrel
    -- the buffers of the other frames are others
    have hother : ∀ id bufferId', id ≠ frameId → s.ring.inFlight.get? id = some bufferId' →
        (s.ring.buffers.modify bufferId fun b => { b with inFlight := false })[bufferId']? =
          s.ring.buffers[bufferId']? := by
      intro id bufferId' hne hid
      have hbuffer : bufferId ≠ bufferId' := by
        rintro rfl
        exact hne (h.distinct id frameId bufferId hid hflight)
      simp [hbuffer]
    constructor
    · rw [hring]; exact h.nextId
    · rw [hring]
      intro id bufferId' hid
      obtain ⟨hne, hid⟩ := get?_of_get?_erase hid
      obtain ⟨hlt, hnone, b, hget, hbusy⟩ := h.flights id bufferId' hid
      exact ⟨hlt, hnone, b, (hother id bufferId' hne hid).trans hget, hbusy⟩
    · rw [hring]
      intro id id' bufferId' hid hid'
      exact h.distinct id id' bufferId' (get?_of_get?_erase hid).2
        (get?_of_get?_erase hid').2
    · rw [hring]; exact h.retired
    · intro handed hmem
      obtain ⟨hmem, hne⟩ := hkept handed hmem
      obtain ⟨b', hheld, himage⟩ := h.holds handed hmem
      refine ⟨b', ?_, himage⟩
      rw [hring]
      exact held_of_held hheld rfl fun bufferId' hid =>
        ⟨(get?_erase_ne _ hne).trans hid, hother _ bufferId' hne hid⟩

theorem Custody.resize [Inhabited Px] (h : s.Custody) (width height : ℕ) (content : ℕ → ℕ × ℕ → Px)
    (allocated : Bool) : (s.resize width height content allocated).Custody := by
  by_cases hkeep : (width = s.ring.width ∧ height = s.ring.height) ∨ allocated = false
  · have hring : s.ring.resize width height content allocated = s.ring := by
      rcases hkeep with hsame | rfl
      · exact if_pos hsame
      · unfold ExportRing.resize
        split_ifs <;> first | rfl | simp_all
    simp only [Client.resize, hring]
    exact h.congr rfl rfl rfl rfl (fun _ _ _ => rfl) rfl
  push Not at hkeep
  have hsame : ¬ (width = s.ring.width ∧ height = s.ring.height) := fun hs => hkeep.1 hs.1 hs.2
  have hallocated : (!allocated) = false := by simpa using hkeep.2
  -- every frame in flight has its buffer in the graveyard now
  have hentries : ∀ e ∈ s.ring.inFlight.toList, s.ring.inFlight.get? e.1 = some e.2 :=
    fun e he => (s.ring.inFlight.mem_toList_iff e.1 e.2).1 he
  have hbuffers : (s.ring.inFlight.toList.map Prod.snd).Nodup := by
    refine List.Nodup.map_on ?_ (List.Nodup.of_map _ s.ring.inFlight.nodup_fst_toList)
    intro e he e' he' heq
    have hid := h.distinct e.1 e'.1 e.2 (hentries e he) (heq ▸ hentries e' he')
    exact Prod.ext hid heq
  have hold :
      ∀ e ∈ s.ring.inFlight.toList, ∃ b, (s.ring.buffers.map some)[e.2]? = some (some b) := by
    intro e he
    obtain ⟨-, -, b, hget, -⟩ := h.flights e.1 e.2 (hentries e he)
    exact ⟨b, by simp [hget]⟩
  obtain ⟨hmoved, hkept⟩ := foldl_retire s.ring.inFlight.nodup_fst_toList hbuffers hold
    s.ring.graveyard
  simp only [Client.resize, ExportRing.resize, if_neg hsame, hallocated, Bool.false_eq_true,
    if_false]
  constructor
  · exact h.nextId
  · exact fun id bufferId hid => nomatch hid
  · exact fun id id' bufferId hid => nomatch hid
  · intro id b hgrave
    by_cases hin : id ∈ s.ring.inFlight.toList.map Prod.fst
    · obtain ⟨e, he, rfl⟩ := mem_map.1 hin
      exact (h.flights e.1 e.2 (hentries e he)).1
    · rw [hkept id hin] at hgrave
      exact h.retired id b hgrave
  · intro handed hmem
    obtain ⟨b, hheld, himage⟩ := h.holds handed hmem
    refine ⟨b, held_of_grave ?_, himage⟩
    obtain hgrave | ⟨hnone, bufferId, hid, hget⟩ := held_cases hheld
    · have hout : handed.frameId ∉ s.ring.inFlight.toList.map Prod.fst := by
        intro hin
        obtain ⟨e, he, heq⟩ := mem_map.1 hin
        obtain ⟨-, hnone, -⟩ := h.flights e.1 e.2 (hentries e he)
        rw [heq, hgrave] at hnone
        cases hnone
      rw [hkept _ hout]
      exact hgrave
    · refine hmoved (handed.frameId, bufferId) ?_ b (by simp [hget])
      exact (s.ring.inFlight.mem_toList_iff _ _).2 hid

/-! ### Whole runs -/

instance (s : Client Px) (op : RingOp Px) : Decidable (s.Orderly op) :=
  match op with
  | .publish => inferInstanceAs (Decidable (s.unmarked = [] ∧ s.published + 1 < 2 ^ 32))
  | .resize width height _ allocated =>
    inferInstanceAs (Decidable
      (allocated = true ∨ (width = s.ring.width ∧ height = s.ring.height)))
  | .write .. | .markDirty .. | .markDirtyAll | .abandon | .release _ | .withdrawFrame _ =>
    inferInstanceAs (Decidable True)

/-- The history holds what the buffers lack, and the host's frames are in order. -/
def Sound (s : Client Px) : Prop := (∃ log, s.Tracked log) ∧ s.Custody

theorem custody_start (fb : Image Px) (count : ℕ) (content : ℕ → ℕ × ℕ → Px) :
    (start fb count content).Custody := by
  constructor
  · rfl
  · exact fun id bufferId hid => nomatch hid
  · exact fun id id' bufferId hid => nomatch hid
  · exact fun id b hid => nomatch hid
  · exact fun handed hmem => nomatch hmem

theorem sound_start (fb : Image Px) (count : ℕ) (content : ℕ → ℕ × ℕ → Px) :
    (start fb count content).Sound := by
  refine ⟨⟨.empty, DirtyHistory.represents_new _ _ _, rfl, ⟨rfl, rfl⟩, fun b hb => ?_,
    fun p hp => nomatch hp⟩, custody_start fb count content⟩
  obtain ⟨i, -, rfl⟩ := mem_map.1 hb
  exact ⟨⟨rfl, rfl⟩, fun gen hgen => nomatch hgen⟩

/-- Every operation keeps the frames in order, up to `2 ^ 32` of them. -/
theorem Custody.step [Inhabited Px] (h : s.Custody) (op : RingOp Px)
    (hcount : op = .publish → s.published + 1 < 2 ^ 32) : (s.step op).Custody := by
  cases op with
  | write | markDirty | markDirtyAll => exact h.congr rfl rfl rfl rfl (fun _ _ _ => rfl) rfl
  | publish => exact h.publish (hcount rfl)
  | abandon =>
    show s.abandon.Custody
    obtain hnone | ⟨bufferId, b, hget, hfree, hsome⟩ := s.abandon_cases
    · rw [hnone]
      exact h.congr rfl rfl rfl rfl (fun _ _ _ => rfl) rfl
    · rw [hsome]
      refine h.congr rfl rfl rfl rfl (fun id bufferId' hin => getElem?_set_ne ?_) rfl
      rintro rfl
      exact h.not_in_flight hget hfree id hin
  | release frameId => exact h.release frameId
  | withdrawFrame frameId =>
    exact (h.release frameId).congr rfl rfl rfl rfl (fun _ _ _ => rfl) rfl
  | resize width height content allocated => exact h.resize width height content allocated

/-- An orderly operation keeps both. -/
theorem Sound.step [Inhabited Px] (h : s.Sound) {op : RingOp Px} (hop : s.Orderly op) :
    (s.step op).Sound := by
  obtain ⟨⟨log, htracked⟩, hcustody⟩ := h
  refine ⟨?_, hcustody.step op ?_⟩
  · cases op with
    | write tx ty paint => exact ⟨log, htracked.write tx ty paint⟩
    | markDirty tx ty => exact htracked.markDirty tx ty
    | markDirtyAll => exact htracked.markDirtyAll
    | publish => exact ⟨_, htracked.publish hop.1⟩
    | abandon => exact ⟨_, htracked.abandon⟩
    | release frameId => exact ⟨log, htracked.release frameId⟩
    | withdrawFrame frameId => exact (htracked.release frameId).markDirtyAll
    | resize width height content allocated => exact htracked.resize content hop
  · rintro rfl
    exact hop.2

/-- **Published buffers are exact.** Along every orderly run the frames the host has not released
show what they showed when it was given them; and a publish hands out the framebuffer pixel for
pixel, names damage that covers all that differs from the frame published before, and writes no
buffer that is out. -/
theorem published_exact [Inhabited Px] (fb : Image Px) (count : ℕ) (content : ℕ → ℕ × ℕ → Px)
    (ops : List (RingOp Px)) (hops : Along Orderly step (start fb count content) ops) :
    let s := run step (start fb count content) ops
    (∀ handed ∈ s.holds, ∃ b, s.ring.held handed.frameId = some b ∧ b.image = handed.picture) ∧
      ∀ frame, s.Orderly .publish → s.publish.2 = some frame →
        (∃ b, s.publish.1.ring.held frame.frameId = some b ∧ b.image.width = s.fb.width ∧
            b.image.height = s.fb.height ∧
            ∀ p : ℕ × ℕ, p.1 < s.fb.width → p.2 < s.fb.height →
              b.image.pixel p = s.fb.pixel p) ∧
          (∀ since ∈ frame.sincePrevious, ∃ previous ∈ s.previous,
            previous.frameId = since.frameId ∧ previous.picture.width = s.fb.width ∧
            previous.picture.height = s.fb.height ∧
            ∀ p : ℕ × ℕ, p.1 < s.fb.width → p.2 < s.fb.height →
              previous.picture.pixel p ≠ s.fb.pixel p → ∃ r ∈ since.damage, r.Covers p.1 p.2) ∧
          ∀ handed ∈ s.holds, s.ring.inFlight.get? handed.frameId ≠ some frame.bufferId := by
  have hsound : (run step (start fb count content) ops).Sound :=
    hops.inv (I := Sound) (fun s op hs hop => hs.step hop) (sound_start fb count content)
  generalize run step (start fb count content) ops = s at hsound
  obtain ⟨⟨log, htracked⟩, hcustody⟩ := hsound
  refine ⟨hcustody.holds, fun frame hop hframe => ?_⟩
  have hafter := hcustody.publish hop.2
  obtain hnone | ⟨bufferId, b, hget, hfree, hsome⟩ := s.ring.publish_cases s.fb
  · simp only [Client.publish, hnone] at hframe
    cases hframe
  have hb : b ∈ s.ring.buffers := mem_of_getElem? hget
  have hlt : bufferId < s.ring.buffers.length := (List.getElem?_eq_some_iff.1 hget).1
  simp only [Client.publish, hsome, getElem?_set_self hlt, map_some,
    toList_some] at hframe hafter ⊢
  obtain rfl := some.inj hframe
  refine ⟨?_, fun since hsince => htracked.covers_named hop.1 hsince,
    fun handed _ => hcustody.not_in_flight hget hfree handed.frameId⟩
  obtain ⟨b', hheld, himage⟩ := hafter.holds _ mem_cons_self
  obtain ⟨hsized, -⟩ := htracked.buffers b hb
  refine ⟨b', hheld, ?_⟩
  rw [himage]
  exact ⟨hsized.1.trans htracked.size.1.symm, hsized.2.trans htracked.size.2.symm,
    fun p hx hy => htracked.blit_exact hop.1 hb hx hy⟩

/-- A blank framebuffer of two tiles. -/
def blankFb : Image Bool := ⟨64, 32, fun _ => false⟩

/-- The first tile is drawn and published, then the second. -/
def twoTiles : List (RingOp Bool) :=
  [.write 0 0 fun _ => true, .markDirty 0 0, .publish, .write 1 0 fun _ => true, .markDirty 1 0]

theorem published_exact_twoTiles :
    let s := run step (start blankFb 2 fun _ _ => false) twoTiles
    ∃ frame, s.publish.2 = some frame ∧
      frame.sincePrevious = some ⟨0, [⟨32, 0, 32, 32⟩]⟩ ∧
      ∃ b, s.publish.1.ring.held frame.frameId = some b ∧ b.image.pixel (40, 8) = true := by
  obtain ⟨frame, hframe, hsince⟩ : ∃ frame,
      (run step (start blankFb 2 fun _ _ => false) twoTiles).publish.2 = some frame ∧
        frame.sincePrevious = some ⟨0, [⟨32, 0, 32, 32⟩]⟩ :=
    ⟨⟨1, 1, [⟨0, 0, 64, 32⟩], some ⟨0, [⟨32, 0, 32, 32⟩]⟩, 64, 32⟩, by decide +kernel, rfl⟩
  obtain ⟨⟨b, hheld, -, -, hpixels⟩, -⟩ :=
    (published_exact blankFb 2 (fun _ _ => false) twoTiles (by decide +kernel)).2 frame
      (by decide +kernel) hframe
  refine ⟨frame, hframe, hsince, b, hheld, ?_⟩
  rw [hpixels (40, 8) (by decide +kernel) (by decide +kernel)]
  decide +kernel

/-- **No two frames that are out share a buffer**: in every run of fewer than `2 ^ 32` publishes a
frame in flight has a buffer of its own, which is marked, and none in the graveyard. -/
theorem frames_out_distinct [Inhabited Px] (fb : Image Px) (count : ℕ) (content : ℕ → ℕ × ℕ → Px)
    (ops : List (RingOp Px))
    (hops : Along (fun s _ => s.published + 1 < 2 ^ 32) step (start fb count content) ops)
    (id : UInt32) (bufferId : ℕ) :
    let ring := (run step (start fb count content) ops).ring
    ring.inFlight.get? id = some bufferId → ring.graveyard.get? id = none ∧
      (∃ b, ring.buffers[bufferId]? = some b ∧ b.inFlight = true) ∧
      ∀ id', ring.inFlight.get? id' = some bufferId → id' = id := by
  intro ring hid
  have hcustody := hops.inv (I := Custody) (fun s op hs hop => hs.step op fun _ => hop)
    (custody_start fb count content)
  obtain ⟨-, hgrave, hbuffer⟩ := hcustody.flights id bufferId hid
  exact ⟨hgrave, hbuffer, fun id' hid' => hcustody.distinct id' id bufferId hid' hid⟩

/-- Two frames are out when the size changes, and two more after it. -/
def fourFrames : List (RingOp Bool) :=
  twoTiles ++ [.publish, .resize 32 64 (fun _ _ => true) true, .publish, .abandon, .publish]

theorem frames_out_distinct_fourFrames :
    let ring := (run step (start blankFb 2 fun _ _ => false) fourFrames).ring
    (ring.inFlight.get? 2 = some 0 ∧ (ring.graveyard.get? 0).isSome ∧
        (ring.graveyard.get? 1).isSome) ∧
      ring.inFlight.get? 3 = some 1 ∧ ring.graveyard.get? 3 = none ∧
      ∀ id', ring.inFlight.get? id' = some 1 → id' = 3 := by
  have hid : (run step (start blankFb 2 fun _ _ => false) fourFrames).ring.inFlight.get? 3 =
      some 1 := by decide +kernel
  obtain ⟨hgrave, -, hown⟩ := frames_out_distinct blankFb 2 (fun _ _ => false) fourFrames
    (by decide +kernel) 3 1 hid
  exact ⟨by decide +kernel, hid, hgrave, hown⟩

/-- A white frame is published and released; the size changes, but no buffer of that size can be
allocated; and it changes back. The framebuffer lost its right half, the ring never noticed, and
the next publish hands out the old pixels. -/
theorem resize_unallocated :
    let s := run step (start (⟨64, 32, fun _ => true⟩ : Image Bool) 1 fun _ _ => false)
      [.publish, .release 0, .resize 32 32 (fun _ _ => false) false,
        .resize 64 32 (fun _ _ => false) true]
    (s.publish.1.ring.held 1).map (fun b => (b.image.width, b.image.height)) =
        some (s.fb.width, s.fb.height) ∧
      (s.publish.1.ring.held 1).map (fun b => b.image.pixel (40, 0)) ≠
          some (s.fb.pixel (40, 0)) := by
  decide +kernel

end Client

end Ghostframe.Gpu
