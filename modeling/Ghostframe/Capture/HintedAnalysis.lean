import Ghostframe.Capture.FrameProcessor

/-!
# Hinted analysis is full analysis

A producer that names the changed tiles makes the processor copy and compare only their
rows. While the hints are true this changes nothing: after every run the processor is the
one that was told nothing, and every report is the same.

* `Mirrors`: a trusted upload image is the last frame, and no tile of it is above the
  threshold against the reference;
* `hinted_eq_full`: along every run, by induction on its operations.
-/

namespace Ghostframe.Capture

/-! ### Tiles and pixels -/

variable (geom : FrameGeometry)

theorem FrameGeometry.tileOf_place {tile dx dy : ℕ} (hx : dx < tileSize) (hy : dy < tileSize) :
    geom.tileOf (tile % geom.cols * tileSize + dx) (tile / geom.cols * tileSize + dy) = tile := by
  have hpos : 0 < tileSize := by decide
  have hdiv : ∀ a d : ℕ, d < tileSize → (a * tileSize + d) / tileSize = a := by
    intro a d hd
    rw [Nat.add_comm, Nat.add_mul_div_right _ _ hpos, Nat.div_eq_of_lt hd, Nat.zero_add]
  rw [tileOf, hdiv _ _ hx, hdiv _ _ hy, Nat.mul_comm]
  exact Nat.div_add_mod _ _

theorem FrameGeometry.tileOf_div {x y : ℕ} (hx : x < geom.width) :
    geom.tileOf x y / geom.cols = y / tileSize := by
  have hcol : x / tileSize < geom.cols := by
    unfold cols tilesAlong tileSize
    omega
  rw [tileOf, Nat.add_comm, Nat.add_mul_div_right _ _ (Nat.zero_lt_of_lt hcol),
    Nat.div_eq_of_lt hcol, Nat.zero_add]

theorem FrameGeometry.tileOf_lt {x y : ℕ} (hx : x < geom.width) (hy : y < geom.height) :
    geom.tileOf x y < geom.tileCount := by
  have hcol : x / tileSize < geom.cols := by
    unfold cols tilesAlong tileSize
    omega
  have hrow : y / tileSize < geom.rows := by
    unfold rows tilesAlong tileSize
    omega
  calc geom.tileOf x y < y / tileSize * geom.cols + geom.cols := by unfold tileOf; omega
    _ = (y / tileSize + 1) * geom.cols := by ring
    _ ≤ geom.rows * geom.cols := Nat.mul_le_mul_right _ hrow
    _ = geom.tileCount := Nat.mul_comm _ _

/-- The difference of a tile reads only the pixels of the tile. -/
theorem tileSad_congr {geom : FrameGeometry} {current current' prev prev' : Image} {tile : ℕ}
    (h : ∀ x y, x < geom.width → y < geom.height → geom.tileOf x y = tile →
      current.pixel x y = current'.pixel x y ∧ prev.pixel x y = prev'.pixel x y) :
    tileSad geom current prev tile = tileSad geom current' prev' tile := by
  unfold tileSad
  refine congrArg List.sum (List.map_congr_left fun dy hdy => ?_)
  refine congrArg List.sum (List.map_congr_left fun dx hdx => ?_)
  refine if_ctx_congr Iff.rfl (fun hin => ?_) fun _ => rfl
  obtain ⟨hcur, hprev⟩ := h _ _ hin.1 hin.2
    (geom.tileOf_place (List.mem_range.1 hdx) (List.mem_range.1 hdy))
  rw [hcur, hprev]

theorem tileSad_self (im : Image) (tile : ℕ) : tileSad geom im im tile = 0 := by
  simp [tileSad, Pixel.diff, Nat.dist_self]

/-- What was copied is the frame, what was not is the image. -/
theorem Image.copyRuns_pixel (up : Image) (pixels : FrameBuf) (width height : ℕ)
    (runs : List RowRun) (x y : ℕ) :
    (up.copyRuns pixels width height runs).pixel x y =
      if x < width ∧ y < height ∧ InRuns runs (y / tileSize) then pixels.pixel x y
      else up.pixel x y := by
  induction runs generalizing up with
  | nil => simp [copyRuns, InRuns]
  | cons run runs ih =>
    have hrun : run.1 * tileSize ≤ y ∧ y < min ((run.1 + run.2) * tileSize) height ↔
        y < height ∧ run.1 ≤ y / tileSize ∧ y / tileSize < run.1 + run.2 := by
      unfold tileSize
      omega
    have hcons : InRuns (run :: runs) (y / tileSize) ↔
        (run.1 ≤ y / tileSize ∧ y / tileSize < run.1 + run.2) ∨ InRuns runs (y / tileSize) := by
      simp [InRuns]
    have := ih (up.copyRows pixels width (run.1 * tileSize)
      (min ((run.1 + run.2) * tileSize) height))
    simp only [copyRuns, List.foldl_cons] at this ⊢
    rw [this]
    simp only [copyRows, hrun, hcons]
    by_cases hx : x < width ∧ y < height
    · by_cases hin : InRuns runs (y / tileSize) <;> simp [hx, hin]
    · rw [if_neg (by tauto), if_neg (by tauto), if_neg (by tauto)]

theorem Image.fill_whole_pixel (up : Image) (pixels : FrameBuf) (width height x y : ℕ) :
    (up.fill pixels width height none).pixel x y =
      if x < width ∧ y < height then pixels.pixel x y else up.pixel x y := by
  simp [fill, copyRows]

/-- Two ways to compare that find the same tiles dirty do the same. -/
theorem GpuFrameProcessor.processFrameWithImported_congr {p : GpuFrameProcessor} {current : Image}
    {geom : FrameGeometry} (fails : Bool) {runs runs' : Option (List RowRun)}
    (h : ∀ prev ∈ p.prevImage, ∀ tile < geom.tileCount,
      isDirty geom current prev runs tile = isDirty geom current prev runs' tile) :
    p.processFrameWithImported current geom fails runs =
      p.processFrameWithImported current geom fails runs' := by
  unfold processFrameWithImported
  by_cases hfails : fails = true
  · rw [if_pos hfails, if_pos hfails]
  rcases hprev : p.prevImage with _ | prev
  · rfl
  have hcommit : commitTiles geom current prev (isDirty geom current prev runs) =
      commitTiles geom current prev (isDirty geom current prev runs') := by
    unfold commitTiles
    congr 1
    funext x y
    refine if_ctx_congr ?_ (fun _ => rfl) fun _ => rfl
    refine and_congr_right fun hx => and_congr_right fun hy => ?_
    rw [h prev hprev _ (geom.tileOf_lt hx hy)]
  have hlist : (List.range geom.tileCount).filter (isDirty geom current prev runs) =
      (List.range geom.tileCount).filter (isDirty geom current prev runs') :=
    List.filter_congr fun tile htile => h prev hprev tile (List.mem_range.1 htile)
  simp only [hcommit, hlist]

theorem GpuFrameProcessor.analyseUpload_congr {p : GpuFrameProcessor} {up : Image}
    {geom : FrameGeometry} {faults : Faults} {runs runs' : Option (List RowRun)}
    {uses uses' : List UploadUse}
    (h : ∀ prev ∈ p.prevImage, ∀ tile < geom.tileCount,
      isDirty geom up prev runs tile = isDirty geom up prev runs' tile) :
    (p.analyseUpload up geom faults runs uses).processor =
        (p.analyseUpload up geom faults runs' uses').processor ∧
      (p.analyseUpload up geom faults runs uses).result =
        (p.analyseUpload up geom faults runs' uses').result := by
  unfold analyseUpload
  have hsame := processFrameWithImported_congr (p := { p with upload := none })
    faults.stages h
  rw [hsame]
  generalize ({ p with upload := none }).processFrameWithImported up geom faults.stages runs' = res
  obtain ⟨q, e | dirty⟩ := res
  · exact ⟨rfl, rfl⟩
  · exact ⟨rfl, rfl⟩

/-! ### Ticks of a producer -/

/-- What a producer of frames of one size does. A frame it drops is a `forgetDamage`. -/
inductive Tick
  | pixels (pixels : FrameBuf) (stride : ℕ) (damage : FrameDamage) (faults : Faults)
  | unchanged (width height : ℕ) (faults : Faults)
  | forgetDamage
  | invalidateBaseline (forceFrames : ℕ)

namespace Tick

/-- The operation of the processor. -/
def frameOp (width height : ℕ) : Tick → GpuFrameProcessor.FrameOp
  | .pixels buf stride damage faults => .pixels buf width height stride damage faults
  | .unchanged w h faults => .unchanged w h faults
  | .forgetDamage => .forgetDamage
  | .invalidateBaseline forceFrames => .invalidateBaseline forceFrames

/-- The same tick, with nothing said about what changed. -/
def unhinted : Tick → Tick
  | .pixels buf stride _ faults => .pixels buf stride .unknown faults
  | tick => tick

end Tick

/-- The processor, and the last frame if it was submitted and none was dropped since. -/
structure Feed where
  processor : GpuFrameProcessor
  shown : Option (ℕ → ℕ → Pixel) := none

namespace Feed

open GpuFrameProcessor

variable (width height : ℕ)

/-- What the processor makes of a tick. -/
def outcome (s : Feed) (tick : Tick) : Outcome := s.processor.apply (tick.frameOp width height)

def step (s : Feed) (tick : Tick) : Feed where
  processor := (s.outcome width height tick).processor
  shown :=
    match tick with
    | .pixels pixels _ _ _ =>
      match (s.outcome width height tick).result with
      | .ok _ => some pixels.pixel
      | .error _ => none
    | .forgetDamage => none
    | .unchanged .. | .invalidateBaseline _ => s.shown

/-- A frame with damage differs from the last submitted one only in the tiles it names. -/
def Truthful (s : Feed) : Tick → Prop
  | .pixels pixels _ (.tiles hint verify) _ =>
    ∀ last ∈ s.shown, ∀ x < width, ∀ y < height, pixels.pixel x y ≠ last x y →
      hint.get ((⟨width, height⟩ : FrameGeometry).tileOf x y) = true ∨
        verify.get ((⟨width, height⟩ : FrameGeometry).tileOf x y) = true
  | _ => True

/-- A trusted upload image is the last frame, and is within the threshold of the reference. -/
structure Trusted (s : Feed) (up : Image) (last : ℕ → ℕ → Pixel) : Prop where
  upload : s.processor.upload = some up
  shown : s.shown = some last
  width_eq : s.processor.lastWidth = width
  height_eq : s.processor.lastHeight = height
  geometry : 0 < width ∧ 0 < height ∧
    (⟨width, height⟩ : FrameGeometry).tileCount ≤ s.processor.maxTiles
  pixels : ∀ x y, x < width → y < height → up.pixel x y = last x y
  clean : ∀ prev ∈ s.processor.prevImage, ∀ tile,
    tileSad ⟨width, height⟩ up prev tile ≤ sadThreshold

/-- The baseline flag is right. -/
def Mirrors (s : Feed) : Prop :=
  s.processor.damageBaseline = true → ∃ up last, s.Trusted width height up last

variable {width height} {s : Feed} {up : Image} {last : ℕ → ℕ → Pixel} {tick : Tick}

/-! ### What the hints leave out -/

variable {p : GpuFrameProcessor} {pixels : FrameBuf} {stride : ℕ} {damage : FrameDamage}
  {faults : Faults} {runs : List RowRun}

/-- Rows without a named tile hold the frame already. -/
theorem Trusted.untouched (htrusted : s.Trusted width height up last)
    (htrue : s.Truthful width height (.pixels pixels stride damage faults))
    (hruns : damage.uploadRuns width height = some runs) {x y : ℕ} (hx : x < width)
    (hy : y < height) (hrow : ¬ InRuns runs (y / tileSize)) : pixels.pixel x y = up.pixel x y := by
  cases damage with
  | unknown => cases hruns
  | tiles hint verify =>
    by_contra hne
    rw [htrusted.pixels x y hx hy] at hne
    refine hrow (((mem_uploadRuns htrusted.geometry.1 hruns).2 _).2 ⟨?_, ?_⟩)
    · unfold tilesAlong tileSize
      omega
    · refine ⟨_, ?_, ?_, htrue last htrusted.shown x hx y hy hne⟩
      · exact Nat.le_add_right _ _
      · have hcol : x / tileSize < tilesAlong width := by
          unfold tilesAlong tileSize
          omega
        calc y / tileSize * tilesAlong width + x / tileSize
            < y / tileSize * tilesAlong width + tilesAlong width := by omega
          _ = (y / tileSize + 1) * tilesAlong width := by ring

/-- Copying the named rows is copying the frame. -/
theorem Trusted.fill_hinted (htrusted : s.Trusted width height up last)
    (htrue : s.Truthful width height (.pixels pixels stride damage faults))
    (hruns : damage.uploadRuns width height = some runs) :
    up.fill pixels width height (some runs) = up.fill pixels width height none := by
  have hpixel : (up.fill pixels width height (some runs)).pixel =
      (up.fill pixels width height none).pixel := by
    funext x y
    rw [up.fill_whole_pixel, Image.fill, up.copyRuns_pixel]
    by_cases hin : x < width ∧ y < height
    · by_cases hrow : InRuns runs (y / tileSize)
      · rw [if_pos ⟨hin.1, hin.2, hrow⟩, if_pos hin]
      · rw [if_neg (fun h => hrow h.2.2), if_pos hin,
          htrusted.untouched htrue hruns hin.1 hin.2 hrow]
    · rw [if_neg (fun h => hin ⟨h.1, h.2.1⟩), if_neg hin]
  obtain ⟨hw, hh⟩ := up.fill_size pixels width height (some runs)
  obtain ⟨hw', hh'⟩ := up.fill_size pixels width height none
  generalize up.fill pixels width height (some runs) = a at *
  generalize up.fill pixels width height none = b at *
  cases a
  cases b
  simp only at hw hh hw' hh' hpixel
  rw [hw, hh, hw', hh', hpixel]

/-- The tiles of the rows left out are clean. -/
theorem Trusted.isDirty_hinted (htrusted : s.Trusted width height up last)
    (htrue : s.Truthful width height (.pixels pixels stride damage faults))
    (hruns : damage.uploadRuns width height = some runs) {prev : Image}
    (hprev : prev ∈ s.processor.prevImage) (limit tile : ℕ) :
    isDirty ⟨width, height⟩ (up.fill pixels width height none) prev (some (mergeRuns runs limit))
        tile =
      isDirty ⟨width, height⟩ (up.fill pixels width height none) prev none tile := by
  have hordered : OrderedRuns runs := by
    cases damage with
    | unknown => cases hruns
    | tiles hint verify => exact (mem_uploadRuns htrusted.geometry.1 hruns).1
  by_cases hrow : InRuns (mergeRuns runs limit) (tile / (⟨width, height⟩ : FrameGeometry).cols)
  · simp [isDirty, hrow]
  have hsad : tileSad ⟨width, height⟩ (up.fill pixels width height none) prev tile =
      tileSad ⟨width, height⟩ up prev tile := by
    refine tileSad_congr fun x y hx hy htile => ⟨?_, rfl⟩
    have hout : ¬ InRuns runs (y / tileSize) := by
      intro hin
      rw [← htile, FrameGeometry.tileOf_div _ hx] at hrow
      exact hrow (inRuns_mergeRuns hordered limit hin)
    rw [up.fill_whole_pixel, if_pos ⟨hx, hy⟩]
    exact htrusted.untouched htrue hruns hx hy hout
  have hclean := htrusted.clean prev hprev tile
  simp [isDirty, hrow, hsad, Nat.not_lt.2 hclean]

/-! ### One tick -/

theorem runsFor_eq_some (h : p.runsFor damage width height = some runs) :
    p.damageBaseline = true ∧ width = p.lastWidth ∧ height = p.lastHeight ∧
      damage.uploadRuns width height = some runs := by
  unfold runsFor at h
  split_ifs at h with hbase
  simp only [ne_eq, Bool.and_eq_true, Bool.not_eq_true', decide_eq_false_iff_not, not_or,
    not_not] at hbase
  exact ⟨hbase.1, hbase.2.1, hbase.2.2, h⟩

theorem runsFor_unknown (p : GpuFrameProcessor) (width height : ℕ) :
    p.runsFor .unknown width height = none := by
  simp [runsFor, FrameDamage.uploadRuns]

theorem readied_same (hw : width = p.lastWidth) (hh : height = p.lastHeight) :
    p.readied width height = { p with damageBaseline := false } := by
  simp [readied, resizeForPixels, hw, hh]

/-- What is said about the frame changes nothing. -/
theorem Mirrors.outcome_unhinted (hmirrors : s.Mirrors width height)
    (htrue : s.Truthful width height tick) :
    s.outcome width height tick = s.outcome width height tick.unhinted := by
  cases tick with
  | unchanged | forgetDamage | invalidateBaseline => rfl
  | pixels pixels stride damage faults =>
    simp only [outcome, Tick.frameOp, Tick.unhinted, GpuFrameProcessor.apply]
    obtain ⟨e, h⟩ | ⟨e, h⟩ | ⟨-, up, hup, h⟩ :=
      s.processor.pixels_cases pixels width height stride faults
    · rw [h, h]
    · rw [h, h]
    rw [h, h, runsFor_unknown]
    rcases hruns : s.processor.runsFor damage width height with _ | runs
    · rfl
    -- the hints are used, so the upload image is trusted
    obtain ⟨hbase, hw, hh, hupload⟩ := runsFor_eq_some hruns
    obtain ⟨up', last, htrusted⟩ := hmirrors hbase
    have hsame : up' = up := by
      rw [readied_same hw hh] at hup
      simpa [takeUpload, htrusted.upload] using hup
    subst hsame
    rw [htrusted.fill_hinted htrue hupload, readied_same hw hh]
    unfold analyseUpload
    rw [processFrameWithImported_congr]
    intro prev hprev tile _
    have hsome : s.processor.prevImage.isSome = true := Option.isSome_of_mem hprev
    simp only [dispatchRuns, hsome, if_true, Option.map_some, Option.map_none]
    exact htrusted.isDirty_hinted htrue hupload hprev maxDispatchRuns tile

theorem commitTiles_clean (geom : FrameGeometry) (current prev : Image) (tile : ℕ) :
    tileSad geom current (commitTiles geom current prev (isDirty geom current prev none)) tile ≤
      sadThreshold := by
  by_cases hdirty : isDirty geom current prev none tile = true
  · have hsame : tileSad geom current
        (commitTiles geom current prev (isDirty geom current prev none)) tile =
          tileSad geom current current tile := by
      refine tileSad_congr fun x y hx hy htile => ⟨rfl, ?_⟩
      exact if_pos ⟨hx, hy, by rw [htile]; exact hdirty⟩
    rw [hsame, tileSad_self]
    exact Nat.zero_le _
  · have hsame : tileSad geom current
        (commitTiles geom current prev (isDirty geom current prev none)) tile =
          tileSad geom current prev tile := by
      refine tileSad_congr fun x y hx hy htile => ⟨rfl, ?_⟩
      exact if_neg fun h => hdirty (by rw [← htile]; exact h.2.2)
    rw [hsame]
    simpa [isDirty] using hdirty

/-- An analysis that leaves no dirty tile out ends within the threshold of the reference. -/
theorem processFrameWithImported_clean {current : Image} {geom : FrameGeometry}
    {runs : Option (List RowRun)} (hruns : ∀ prev ∈ p.prevImage, ∀ tile,
      isDirty geom current prev runs tile = isDirty geom current prev none tile) :
    ∃ q dirty, p.processFrameWithImported current geom false runs = (q, .ok dirty) ∧
      q.maxTiles = p.maxTiles ∧ q.lastWidth = p.lastWidth ∧ q.lastHeight = p.lastHeight ∧
      ∀ prev ∈ q.prevImage, ∀ tile, tileSad geom current prev tile ≤ sadThreshold := by
  simp only [processFrameWithImported, Bool.false_eq_true, if_false]
  rcases hprev : p.prevImage with _ | prev
  · split_ifs
    · exact ⟨_, _, rfl, rfl, rfl, rfl, fun prev h => by cases h⟩
    · refine ⟨_, _, rfl, rfl, rfl, rfl, fun prev h tile => ?_⟩
      obtain rfl := Option.some.inj h
      exact (tileSad_congr fun x y _ _ _ => ⟨rfl, rfl⟩).trans_le
        ((tileSad_self geom current tile).trans_le (Nat.zero_le _))
  · refine ⟨_, _, rfl, rfl, rfl, rfl, fun committed h tile => ?_⟩
    obtain rfl := Option.some.inj h
    rw [show isDirty geom current prev runs = isDirty geom current prev none from
      funext (hruns prev hprev)]
    exact commitTiles_clean geom current prev tile

/-- A frame analysed from the upload image fails, or leaves the image trusted. -/
theorem analyseUpload_trusted {up : Image} (faults : Faults) {runs : Option (List RowRun)}
    (uses : List UploadUse) {last : ℕ → ℕ → Pixel} (hbase : p.damageBaseline = false)
    (hwidth : p.lastWidth = width) (hheight : p.lastHeight = height)
    (hgeom : 0 < width ∧ 0 < height ∧ (⟨width, height⟩ : FrameGeometry).tileCount ≤ p.maxTiles)
    (hpixels : ∀ x y, x < width → y < height → up.pixel x y = last x y)
    (hruns : ∀ prev ∈ p.prevImage, ∀ tile,
      isDirty ⟨width, height⟩ up prev runs tile = isDirty ⟨width, height⟩ up prev none tile) :
    let o := p.analyseUpload up ⟨width, height⟩ faults runs uses
    (∃ e, o.result = .error e ∧ o.processor.damageBaseline = false) ∨
      ∃ dirty, o.result = .ok dirty ∧
        (⟨o.processor, some last⟩ : Feed).Trusted width height up last := by
  unfold analyseUpload
  rcases hfails : faults.stages
  · obtain ⟨q, dirty, heq, hmax, hw, hh, hclean⟩ :=
      processFrameWithImported_clean (p := { p with upload := none }) hruns
    rw [heq]
    exact .inr ⟨dirty, rfl, rfl, rfl, hw.trans hwidth, hh.trans hheight, hmax ▸ hgeom, hpixels,
      hclean⟩
  · exact .inl ⟨.stagesFailed, rfl, hbase⟩

theorem Trusted.step_unchanged (htrusted : s.Trusted width height up last) (faults : Faults)
    (uses : List UploadUse) :
    let o := ({ s.processor with damageBaseline := false }).analyseUpload up ⟨width, height⟩ faults
      (some []) uses
    (⟨o.processor, s.shown⟩ : Feed).Mirrors width height := by
  intro o hbase
  have hruns : ∀ prev ∈ s.processor.prevImage, ∀ tile,
      isDirty ⟨width, height⟩ up prev (some []) tile =
        isDirty ⟨width, height⟩ up prev none tile := by
    intro prev hprev tile
    simp [isDirty, InRuns, Nat.not_lt.2 (htrusted.clean prev hprev tile)]
  obtain ⟨e, -, hoff⟩ | ⟨dirty, -, hafter⟩ :=
    analyseUpload_trusted (p := { s.processor with damageBaseline := false }) faults uses
      rfl htrusted.width_eq htrusted.height_eq htrusted.geometry htrusted.pixels hruns
  · exact absurd hbase (by rw [hoff]; simp)
  · rw [htrusted.shown]
    exact ⟨up, last, hafter⟩

theorem readied_fields (p : GpuFrameProcessor) (width height : ℕ) :
    (p.readied width height).damageBaseline = false ∧
      (p.readied width height).maxTiles = p.maxTiles := by
  unfold readied resizeForPixels
  split_ifs <;> exact ⟨rfl, rfl⟩

theorem mirrors_step_whole (s : Feed) (pixels : FrameBuf) (stride : ℕ) (faults : Faults) :
    (s.step width height (.pixels pixels stride .unknown faults)).Mirrors width height := by
  obtain ⟨hoff, hmax⟩ := readied_fields s.processor width height
  intro hbase
  simp only [step, outcome, Tick.frameOp, GpuFrameProcessor.apply] at hbase ⊢
  obtain ⟨e, h⟩ | ⟨e, h⟩ | ⟨hgeom, up, hup, h⟩ :=
    s.processor.pixels_cases pixels width height stride faults
  · rw [h] at hbase
    cases hbase
  · rw [h] at hbase
    exact absurd hbase (by simp [hoff])
  · obtain ⟨hwidth, hheight⟩ := s.processor.readied_sizes width height
    have hpixels : ∀ x y, x < width → y < height →
        (up.fill pixels width height none).pixel x y = pixels.pixel x y := by
      intro x y hx hy
      rw [up.fill_whole_pixel, if_pos ⟨hx, hy⟩]
    have hdispatch : (s.processor.readied width height).dispatchRuns none = none := by
      simp [dispatchRuns]
    rw [h, runsFor_unknown, hdispatch] at hbase ⊢
    obtain ⟨e, -, herror⟩ | ⟨dirty, hok, htrusted⟩ :=
      analyseUpload_trusted faults
        [⟨(up.width, up.height), (width, height)⟩, ⟨(up.width, up.height), (width, height)⟩] hoff
        hwidth hheight (hmax ▸ hgeom) hpixels fun _ _ _ => rfl
    · exact absurd hbase (by rw [herror]; simp)
    · rw [hok]
      exact ⟨_, _, htrusted⟩

theorem step_unhinted (h : s.outcome width height tick = s.outcome width height tick.unhinted) :
    s.step width height tick = s.step width height tick.unhinted := by
  cases tick with
  | pixels pixels stride damage faults => simp only [step, Tick.unhinted, h]
  | unchanged | forgetDamage | invalidateBaseline => rfl

/-- A truthful tick keeps the baseline flag right. -/
theorem Mirrors.step (hmirrors : s.Mirrors width height)
    (htrue : s.Truthful width height tick) : (s.step width height tick).Mirrors width height := by
  cases tick with
  | pixels pixels stride damage faults =>
    rw [step_unhinted (hmirrors.outcome_unhinted htrue)]
    exact mirrors_step_whole s pixels stride faults
  | unchanged w h faults =>
    intro hbase
    simp only [Feed.step, outcome, Tick.frameOp, GpuFrameProcessor.apply] at hbase ⊢
    obtain ⟨baseline, e, htrusted, heq⟩ | ⟨up, hup, htrusted, -, rfl, rfl, heq⟩ :=
      s.processor.unchanged_cases w h faults
    · rw [heq] at hbase ⊢
      obtain ⟨up, last, htrusted⟩ := hmirrors (htrusted hbase)
      exact ⟨up, last, { htrusted with }⟩
    · obtain ⟨up', last, htrusted⟩ := hmirrors htrusted
      obtain rfl := Option.some.inj (hup.symm.trans htrusted.upload)
      obtain ⟨hwidth, hheight⟩ := And.intro htrusted.width_eq htrusted.height_eq
      subst hwidth hheight
      rw [heq] at hbase ⊢
      exact htrusted.step_unchanged faults _ hbase
  | forgetDamage => exact fun hbase => by cases hbase
  | invalidateBaseline forceFrames =>
    intro hbase
    obtain ⟨up, last, htrusted⟩ := hmirrors hbase
    exact ⟨up, last, { htrusted with clean := fun prev hprev => by cases hprev }⟩

/-- The last frame given again, whole. -/
def again (width height : ℕ) (last : ℕ → ℕ → Pixel) (faults : Faults) : Tick :=
  .pixels ⟨width * 4 * height, last⟩ (width * 4) .unknown faults

theorem Trusted.fill_again (htrusted : s.Trusted width height up last) (len : ℕ) :
    up.fill ⟨len, last⟩ width height none = up := by
  have hpixel : (up.fill ⟨len, last⟩ width height none).pixel = up.pixel := by
    funext x y
    rw [up.fill_whole_pixel]
    by_cases hin : x < width ∧ y < height
    · rw [if_pos hin, htrusted.pixels x y hin.1 hin.2]
    · rw [if_neg hin]
  calc up.fill ⟨len, last⟩ width height none
      = { up with pixel := (up.fill ⟨len, last⟩ width height none).pixel } := rfl
    _ = up := by rw [hpixel]

/-- A tick without content that is analysed is the last frame given again, whole. -/
theorem Mirrors.unchanged_eq_again (hmirrors : s.Mirrors width height) {w h : ℕ} {dirty : List ℕ}
    (hok : (s.outcome width height (.unchanged w h faults)).result = .ok dirty) :
    ∃ last ∈ s.shown,
      (s.outcome width height (.unchanged w h faults)).processor =
          (s.outcome width height (again width height last faults)).processor ∧
        (s.outcome width height (.unchanged w h faults)).result =
          (s.outcome width height (again width height last faults)).result := by
  simp only [outcome, Tick.frameOp, again, GpuFrameProcessor.apply] at hok ⊢
  obtain ⟨baseline, e, -, heq⟩ | ⟨up, hup, hbase, hnv12, hw, hh, heq⟩ :=
    s.processor.unchanged_cases w h faults
  · rw [heq] at hok
    cases hok
  obtain ⟨up', last, htrusted⟩ := hmirrors hbase
  obtain rfl := Option.some.inj (hup.symm.trans htrusted.upload)
  obtain ⟨rfl, rfl⟩ := And.intro (hw.trans htrusted.width_eq) (hh.trans htrusted.height_eq)
  refine ⟨last, htrusted.shown, ?_⟩
  obtain ⟨hwpos, hhpos, htiles⟩ := htrusted.geometry
  have hcheck : checkPixels ⟨w * 4 * h, last⟩ w h (w * 4) = .ok () := by simp [checkPixels]
  have hwhole : s.processor.processFrameInnerFromPixelsDamaged ⟨w * 4 * h, last⟩ w h (w * 4)
      .unknown faults = ({ s.processor with damageBaseline := false }).analyseUpload up ⟨w, h⟩
        faults none [⟨(up.width, up.height), (w, h)⟩, ⟨(up.width, up.height), (w, h)⟩] := by
    have hzero : ¬ (w = 0 ∨ h = 0) := by omega
    have hready := readied_same (p := s.processor) hw hh
    rw [readied] at hready
    have htake :
        ({ s.processor with damageBaseline := false }).takeUpload w h faults = some up := by
      simp [takeUpload, hup]
    simp only [processFrameInnerFromPixelsDamaged, if_neg hzero, hcheck,
      if_neg (Nat.not_lt.2 htiles), hready, hnv12, htake, FrameDamage.uploadRuns, ite_self,
      htrusted.fill_again, dispatchRuns, Option.map_none, Bool.false_eq_true, if_false]
  rw [heq, hwhole]
  refine analyseUpload_congr fun prev hprev tile _ => ?_
  simp [isDirty, InRuns, Nat.not_lt.2 (htrusted.clean prev hprev tile)]

/-! ### Whole runs -/

/-- The run of the processor that is told nothing. -/
def unhintedOps (width height : ℕ) (ticks : List Tick) : List FrameOp :=
  ticks.map fun tick => tick.unhinted.frameOp width height

theorem run_unhinted {ticks : List Tick} (hmirrors : s.Mirrors width height)
    (htrue : Along (Truthful width height) (step width height) s ticks) :
    (run (step width height) s ticks).Mirrors width height ∧
      (run (step width height) s ticks).processor =
        run GpuFrameProcessor.step s.processor (unhintedOps width height ticks) := by
  induction ticks generalizing s with
  | nil => exact ⟨hmirrors, rfl⟩
  | cons tick ticks ih =>
    obtain ⟨hmirrors', hrun⟩ := ih (hmirrors.step htrue.1) htrue.2
    refine ⟨hmirrors', hrun.trans ?_⟩
    have hstep : (s.step width height tick).processor =
        s.processor.step (tick.unhinted.frameOp width height) := by
      rw [step_unhinted (hmirrors.outcome_unhinted htrue.1)]
      rfl
    rw [hstep]
    rfl

/-- **Hinted analysis is full analysis.** In every run whose damage is true, each tick reports
the same and leaves the same processor, with its upload and reference images, as after the same
run with nothing said about what changed; and a tick without content that is analysed does what
the last frame given again, whole, would do. -/
theorem hinted_eq_full (maxTiles width height : ℕ) (ticks : List Tick) (tick : Tick)
    (htrue : Along (Truthful width height) (step width height) ⟨{ maxTiles }, none⟩
      (ticks ++ [tick])) :
    let s := run (step width height) ⟨{ maxTiles }, none⟩ ticks
    let full := run GpuFrameProcessor.step { maxTiles } (unhintedOps width height ticks)
    s.outcome width height tick = full.apply (tick.unhinted.frameOp width height) ∧
      ∀ w h faults dirty, tick = .unchanged w h faults →
        (s.outcome width height tick).result = .ok dirty →
        ∃ last ∈ s.shown,
          (s.outcome width height tick).processor =
              (s.outcome width height (again width height last faults)).processor ∧
            (s.outcome width height tick).result =
              (s.outcome width height (again width height last faults)).result := by
  obtain ⟨hticks, htick, -⟩ := along_append.1 htrue
  have hstart : (⟨{ maxTiles }, none⟩ : Feed).Mirrors width height := fun hbase => nomatch hbase
  obtain ⟨hmirrors, hprocessor⟩ := run_unhinted hstart hticks
  refine ⟨?_, ?_⟩
  · rw [hmirrors.outcome_unhinted htick, outcome, hprocessor]
  · rintro w h faults dirty rfl hok
    exact hmirrors.unchanged_eq_again hok

/-- A grey frame, 64 × 8. -/
def greyTick : Tick := .pixels ⟨2048, fun _ _ => ⟨128, 128, 128, 255⟩⟩ 256 .unknown {}

/-- The same frame with its second tile white, and told so. -/
def whiteTick : Tick :=
  .pixels ⟨2048, fun x _ => if x < 32 then ⟨128, 128, 128, 255⟩ else ⟨255, 255, 255, 255⟩⟩ 256
    (.tiles ((TileBits.new 64 8).set 1) (TileBits.new 64 8)) {}

theorem hinted_eq_full_white :
    let s := run (step 64 8) ⟨{ maxTiles := 4 }, none⟩ [greyTick]
    (s.outcome 64 8 whiteTick).result = .ok [1] ∧
      s.outcome 64 8 whiteTick =
        (run GpuFrameProcessor.step { maxTiles := 4 } (unhintedOps 64 8 [greyTick])).apply
          (whiteTick.unhinted.frameOp 64 8) := by
  refine ⟨by decide +kernel, (hinted_eq_full 4 64 8 [greyTick] whiteTick ?_).1⟩
  refine ⟨trivial, fun last hlast x hx y hy hne => .inl ?_, trivial⟩
  have hgrey : last = fun _ _ => ⟨128, 128, 128, 255⟩ := (Option.some.inj hlast).symm
  have hright : ¬ x < 32 := fun hleft => hne (by rw [hgrey]; exact if_pos hleft)
  have htile : (⟨64, 8⟩ : FrameGeometry).tileOf x y = 1 := by
    have hrow : y / tileSize = 0 := Nat.div_eq_of_lt (by unfold tileSize; omega)
    have hcol : x / tileSize = 1 := by unfold tileSize; omega
    rw [FrameGeometry.tileOf, hrow, hcol, Nat.zero_mul]
  rw [htile]
  decide

end Feed

end Ghostframe.Capture
