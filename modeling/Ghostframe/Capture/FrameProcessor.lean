import Ghostframe.Capture.FrameDamage
import Ghostframe.Lib.Run

/-!
# The GPU frame processor

A frame reaches the processor as a dma-buf, as pixels, or as a tick on which nothing
changed. The processor keeps a reference image (what was last committed of every tile) and an
upload image (the last frame given as pixels).
The GPU stages are one step: per tile, the sum of absolute differences against the
reference; a tile above the threshold is dirty and is committed to the reference.

* `uploads_fit`: as long as no dma-buf frame changes the size while there is an upload
  image, rows are copied into the upload image, and it is used as a frame's source, only
  when it has the frame's size;
* `upload_overrun`: a larger dma-buf frame between two frames of pixels leaves the old
  upload image in place, and the next frame is copied past its end.

Escalation, the NV12 conversion and the analysis buffers are left out: they do not feed
back into this state.
-/

namespace Ghostframe.Capture

/-- A BGRA pixel. -/
structure Pixel where
  b : UInt8
  g : UInt8
  r : UInt8
  a : UInt8
  deriving DecidableEq

/-- The difference of two pixels: the colour channels, not alpha. -/
def Pixel.diff (p q : Pixel) : ℕ :=
  Nat.dist p.r.toNat q.r.toNat + Nat.dist p.g.toNat q.g.toNat + Nat.dist p.b.toNat q.b.toNat

/-- An image on the GPU. -/
structure Image where
  width : ℕ
  height : ℕ
  pixel : ℕ → ℕ → Pixel

/-- Pixels handed over in memory: how many bytes there are, and the pixel at each place of the
frame at its stride. -/
structure FrameBuf where
  len : ℕ
  pixel : ℕ → ℕ → Pixel

/-- `SAD_THRESHOLD`. -/
def sadThreshold : ℕ := 64

/-- `MAX_DISPATCH_RUNS`. -/
def maxDispatchRuns : ℕ := 16

/-- `FrameGeometry`. -/
structure FrameGeometry where
  width : ℕ
  height : ℕ

namespace FrameGeometry

variable (geom : FrameGeometry)

def cols : ℕ := tilesAlong geom.width
def rows : ℕ := tilesAlong geom.height
def tileCount : ℕ := geom.cols * geom.rows

/-- The flat index of the tile of a pixel. -/
def tileOf (x y : ℕ) : ℕ := y / tileSize * geom.cols + x / tileSize

end FrameGeometry

/-- The sum of absolute differences over a tile. -/
def tileSad (geom : FrameGeometry) (current prev : Image) (tile : ℕ) : ℕ :=
  ((List.range tileSize).map fun dy => ((List.range tileSize).map fun dx =>
    let x := tile % geom.cols * tileSize + dx
    let y := tile / geom.cols * tileSize + dy
    if x < geom.width ∧ y < geom.height then (current.pixel x y).diff (prev.pixel x y)
    else 0).sum).sum

/-- Why a frame was not analysed. -/
inductive FrameError
  | zeroDimension (width height : ℕ)
  | strideTooSmall (stride rowBytes : ℕ)
  | pixelsTooShort (len required : ℕ)
  | tooManyTiles (tileCount maxTiles : ℕ)
  | noNv12Buffer
  | noUploadImage
  | stagesFailed
  | unmappable
  | refusedInconsistent (width height lastWidth lastHeight : ℕ)
  | refusedNoReference
  deriving DecidableEq

/-- What fails outside the processor: the NV12 buffer, the upload image, a stage before the
submit. -/
structure Faults where
  nv12 : Bool := false
  createUpload : Bool := false
  stages : Bool := false
  deriving DecidableEq

/-- A use of the upload image for a frame: its size and the frame's. -/
structure UploadUse where
  image : ℕ × ℕ
  frame : ℕ × ℕ
  deriving DecidableEq

/-- The image has the frame's size. -/
def UploadUse.Fits (u : UploadUse) : Prop := u.image = u.frame

instance (u : UploadUse) : Decidable u.Fits := inferInstanceAs (Decidable (u.image = u.frame))

structure GpuFrameProcessor where
  maxTiles : ℕ
  prevImage : Option Image := none
  upload : Option Image := none
  damageBaseline : Bool := false
  lastWidth : ℕ := 0
  lastHeight : ℕ := 0
  forceAllDirtyRemaining : ℕ := 0

/-- A processor after a frame, the dirty tiles it reported, and the uses of the upload image. -/
structure Outcome where
  processor : GpuFrameProcessor
  result : Except FrameError (List ℕ)
  uses : List UploadUse := []

/-- `copy_rows`: write rows `y0..y1` of `pixels` into the image. -/
def Image.copyRows (up : Image) (pixels : FrameBuf) (width y0 y1 : ℕ) : Image :=
  { up with
    pixel := fun x y => if x < width ∧ y0 ≤ y ∧ y < y1 then pixels.pixel x y else up.pixel x y }

/-- Copy the rows of some runs. -/
def Image.copyRuns (up : Image) (pixels : FrameBuf) (width height : ℕ) (runs : List RowRun) :
    Image :=
  runs.foldl
    (fun up run =>
      up.copyRows pixels width (run.1 * tileSize) (min ((run.1 + run.2) * tileSize) height))
    up

/-- Copy the rows of the runs, or the whole frame. -/
def Image.fill (up : Image) (pixels : FrameBuf) (width height : ℕ) :
    Option (List RowRun) → Image
  | some runs => up.copyRuns pixels width height runs
  | none => up.copyRows pixels width 0 height

/-- `check_pixels`. -/
def checkPixels (pixels : FrameBuf) (width height stride : ℕ) : Except FrameError Unit :=
  if stride < width * 4 then .error (.strideTooSmall stride (width * 4))
  else if pixels.len < stride * height then .error (.pixelsTooShort pixels.len (stride * height))
  else .ok ()

/-- Is the tile compared, and above the threshold?  Without `runs` every tile is compared. -/
def isDirty (geom : FrameGeometry) (current prev : Image) (runs : Option (List RowRun))
    (tile : ℕ) : Bool :=
  (runs.all fun runs => decide (InRuns runs (tile / geom.cols))) &&
    decide (sadThreshold < tileSad geom current prev tile)

/-- Commit the dirty tiles to the reference. -/
def commitTiles (geom : FrameGeometry) (current prev : Image) (dirty : ℕ → Bool) : Image :=
  { prev with
    pixel := fun x y =>
      if x < geom.width ∧ y < geom.height ∧ dirty (geom.tileOf x y) then current.pixel x y
      else prev.pixel x y }

theorem Image.copyRuns_size (up : Image) (pixels : FrameBuf) (width height : ℕ)
    (runs : List RowRun) :
    (up.copyRuns pixels width height runs).width = up.width ∧
      (up.copyRuns pixels width height runs).height = up.height := by
  induction runs generalizing up with
  | nil => exact ⟨rfl, rfl⟩
  | cons run runs ih => exact ih _

theorem Image.fill_size (up : Image) (pixels : FrameBuf) (width height : ℕ)
    (runs : Option (List RowRun)) :
    (up.fill pixels width height runs).width = up.width ∧
      (up.fill pixels width height runs).height = up.height := by
  cases runs with
  | none => exact ⟨rfl, rfl⟩
  | some runs => exact up.copyRuns_size pixels width height runs

namespace GpuFrameProcessor

variable (p : GpuFrameProcessor)

/-- `process_frame_with_imported`: the stages run on `current`. -/
def processFrameWithImported (current : Image) (geom : FrameGeometry)
    (fails : Bool) (runs : Option (List RowRun)) :
    GpuFrameProcessor × Except FrameError (List ℕ) :=
  if fails then (p, .error .stagesFailed)
  else
    match p.prevImage with
    | none =>
      -- no reference: everything is dirty, and the frame becomes the reference after the cushion
      let allDirty := List.range geom.tileCount
      if 0 < p.forceAllDirtyRemaining then
        ({ p with forceAllDirtyRemaining := p.forceAllDirtyRemaining - 1 }, .ok allDirty)
      else
        ({ p with prevImage := some ⟨geom.width, geom.height, current.pixel⟩ }, .ok allDirty)
    | some prev =>
      let dirty := isDirty geom current prev runs
      ({ p with prevImage := some (commitTiles geom current prev dirty) },
        .ok ((List.range geom.tileCount).filter dirty))

/-- The images of another size are dropped by a frame of pixels. -/
def resizeForPixels (width height : ℕ) : GpuFrameProcessor :=
  if width ≠ p.lastWidth ∨ height ≠ p.lastHeight then
    { p with prevImage := none, upload := none, lastWidth := width, lastHeight := height }
  else p

/-- The upload image, or a new one; every pixel of a new one is written before it is read. -/
def takeUpload (width height : ℕ) (faults : Faults) : Option Image :=
  match p.upload with
  | some up => some up
  | none => if faults.createUpload then none else some ⟨width, height, fun _ _ => ⟨0, 0, 0, 0⟩⟩

/-- The rows to compare: with no reference, every tile. -/
def dispatchRuns (runs : Option (List RowRun)) : Option (List RowRun) :=
  if p.prevImage.isSome then runs.map fun runs => mergeRuns runs maxDispatchRuns else none

/-- A frame from the upload image `up`, which was taken. -/
def analyseUpload (up : Image) (geom : FrameGeometry) (faults : Faults)
    (runs : Option (List RowRun)) (uses : List UploadUse) : Outcome :=
  match ({ p with upload := none }).processFrameWithImported up geom faults.stages runs with
  | (p, .ok dirty) => ⟨{ p with upload := some up, damageBaseline := true }, .ok dirty, uses⟩
  | (p, .error e) => ⟨p, .error e, uses⟩

/-- `process_frame_inner_from_pixels_damaged`. -/
def processFrameInnerFromPixelsDamaged (pixels : FrameBuf)
    (width height stride : ℕ) (damage : FrameDamage) (faults : Faults) : Outcome :=
  let resized : Bool := width ≠ p.lastWidth ∨ height ≠ p.lastHeight
  let baseline := p.damageBaseline && !resized
  let p := { p with damageBaseline := false }
  let geom : FrameGeometry := ⟨width, height⟩
  if width = 0 ∨ height = 0 then ⟨p, .error (.zeroDimension width height), []⟩
  else
    match checkPixels pixels width height stride with
    | .error e => ⟨p, .error e, []⟩
    | .ok () =>
      if p.maxTiles < geom.tileCount then
        ⟨p, .error (.tooManyTiles geom.tileCount p.maxTiles), []⟩
      else
        let p := p.resizeForPixels width height
        if faults.nv12 then ⟨p, .error .noNv12Buffer, []⟩
        else
          match p.takeUpload width height faults with
          | none => ⟨p, .error .noUploadImage, []⟩
          | some up =>
            let runs := if baseline then damage.uploadRuns width height else none
            -- the rows are copied, and the image is then the frame's source
            p.analyseUpload (up.fill pixels width height runs) geom faults (p.dispatchRuns runs)
              [⟨(up.width, up.height), (width, height)⟩, ⟨(up.width, up.height), (width, height)⟩]

/-- `process_frame_inner_unchanged`. -/
def processFrameInnerUnchanged (width height : ℕ) (faults : Faults) :
    Outcome :=
  let baseline := p.damageBaseline
  let p := { p with damageBaseline := false }
  match p.upload with
  | none => ⟨p, .error (.refusedInconsistent width height p.lastWidth p.lastHeight), []⟩
  | some up =>
    if !baseline ∨ width ≠ p.lastWidth ∨ height ≠ p.lastHeight then
      ⟨p, .error (.refusedInconsistent width height p.lastWidth p.lastHeight), []⟩
    else if p.prevImage.isNone then
      ⟨{ p with damageBaseline := true }, .error .refusedNoReference, []⟩
    else if faults.nv12 then ⟨p, .error .noNv12Buffer, []⟩
    else
      p.analyseUpload up ⟨width, height⟩ faults (some [])
        [⟨(up.width, up.height), (width, height)⟩]

/-- Only the reference is dropped by a dma-buf frame of another size. -/
def resizeForDmabuf (width height : ℕ) : GpuFrameProcessor :=
  if width ≠ p.lastWidth ∨ height ≠ p.lastHeight then
    { p with prevImage := none, lastWidth := width, lastHeight := height }
  else p

/-- A dma-buf that holds `content` is imported, or mapped and read. -/
def analyseDmabuf (content : ℕ → ℕ → Pixel) (width height : ℕ)
    (imports maps : Bool) (faults : Faults) : Outcome :=
  if imports then
    let (p, result) :=
      p.processFrameWithImported ⟨width, height, content⟩ ⟨width, height⟩ faults.stages none
    ⟨p, result, []⟩
  else if maps then
    p.processFrameInnerFromPixelsDamaged ⟨width * 4 * height, content⟩ width height (width * 4)
      .unknown faults
  else ⟨p, .error .unmappable, []⟩

/-- `process_frame_inner`. -/
def processFrameInner (content : ℕ → ℕ → Pixel)
    (width height stride : ℕ) (imports maps : Bool) (faults : Faults) : Outcome :=
  let geom : FrameGeometry := ⟨width, height⟩
  if width = 0 ∨ height = 0 then ⟨p, .error (.zeroDimension width height), []⟩
  else if stride < width * 4 then ⟨p, .error (.strideTooSmall stride (width * 4)), []⟩
  else if p.maxTiles < geom.tileCount then
    ⟨p, .error (.tooManyTiles geom.tileCount p.maxTiles), []⟩
  else
    let p := p.resizeForDmabuf width height
    if faults.nv12 then ⟨p, .error .noNv12Buffer, []⟩
    else
      let p := { p with damageBaseline := false }
      p.analyseDmabuf content width height imports maps faults

/-- `forget_damage`. -/
def forgetDamage : GpuFrameProcessor := { p with damageBaseline := false }

/-- `invalidate_baseline`. -/
def invalidateBaseline (forceFrames : ℕ) : GpuFrameProcessor :=
  { p with
    prevImage := none
    forceAllDirtyRemaining := max p.forceAllDirtyRemaining forceFrames }

/-! ### Runs of the processor -/

/-- What the processor is asked to do. -/
inductive FrameOp
  | dmabuf (content : ℕ → ℕ → Pixel) (width height stride : ℕ) (imports maps : Bool)
      (faults : Faults)
  | pixels (pixels : FrameBuf) (width height stride : ℕ) (damage : FrameDamage) (faults : Faults)
  | unchanged (width height : ℕ) (faults : Faults)
  | forgetDamage
  | invalidateBaseline (forceFrames : ℕ)

/-- What an operation does; the two controls report no tiles. -/
def apply : FrameOp → Outcome
  | .dmabuf content width height stride imports maps faults =>
    p.processFrameInner content width height stride imports maps faults
  | .pixels pixels width height stride damage faults =>
    p.processFrameInnerFromPixelsDamaged pixels width height stride damage faults
  | .unchanged width height faults => p.processFrameInnerUnchanged width height faults
  | .forgetDamage => ⟨p.forgetDamage, .ok [], []⟩
  | .invalidateBaseline forceFrames => ⟨p.invalidateBaseline forceFrames, .ok [], []⟩

def step (op : FrameOp) : GpuFrameProcessor := (p.apply op).processor

/-- Is a dma-buf frame refused before anything changes? -/
def refusesDmabuf (width height stride : ℕ) : Bool :=
  decide (width = 0 ∨ height = 0) || decide (stride < width * 4) ||
    decide (p.maxTiles < (⟨width, height⟩ : FrameGeometry).tileCount)

/-- A dma-buf frame that is taken has the size of the frame before it, or there is no upload
image. -/
def Steady : FrameOp → Prop
  | .dmabuf _ width height stride _ _ _ =>
    p.refusesDmabuf width height stride ∨ p.upload.isNone ∨
      (width = p.lastWidth ∧ height = p.lastHeight)
  | _ => True

/-! ### The size of the upload image -/

/-- The upload image has the size of the last frame. -/
def UploadFits : Prop :=
  ∀ up ∈ p.upload, up.width = p.lastWidth ∧ up.height = p.lastHeight

theorem processFrameWithImported_sizes (p : GpuFrameProcessor) (current : Image)
    (geom : FrameGeometry) (fails : Bool) (runs : Option (List RowRun)) :
    let q := (p.processFrameWithImported current geom fails runs).1
    q.upload = p.upload ∧ q.lastWidth = p.lastWidth ∧ q.lastHeight = p.lastHeight := by
  simp only [processFrameWithImported]
  split
  · exact ⟨rfl, rfl, rfl⟩
  · cases p.prevImage with
    | none => split_ifs <;> exact ⟨rfl, rfl, rfl⟩
    | some prev => exact ⟨rfl, rfl, rfl⟩

variable {p : GpuFrameProcessor} {height : ℕ} {faults : Faults}

/-- The upload image is put back, or dropped with the frame. -/
theorem analyseUpload_fits {up : Image} (geom : FrameGeometry)
    {runs : Option (List RowRun)} {uses : List UploadUse}
    (hup : up.width = p.lastWidth ∧ up.height = p.lastHeight) :
    (p.analyseUpload up geom faults runs uses).processor.UploadFits ∧
      (p.analyseUpload up geom faults runs uses).uses = uses := by
  obtain ⟨hupload, hwidth, hheight⟩ :=
    ({ p with upload := none }).processFrameWithImported_sizes up geom faults.stages runs
  unfold analyseUpload
  generalize ({ p with upload := none }).processFrameWithImported up geom faults.stages runs = res
    at hupload hwidth hheight
  obtain ⟨q, e | dirty⟩ := res
  · refine ⟨fun up' hup' => ?_, rfl⟩
    rw [hupload] at hup'
    cases hup'
  · refine ⟨fun up' hup' => ?_, rfl⟩
    obtain rfl := Option.some.inj hup'
    exact ⟨hup.1.trans hwidth.symm, hup.2.trans hheight.symm⟩

/-- The processor once a frame of pixels of this size was accepted. -/
def readied (p : GpuFrameProcessor) (width height : ℕ) : GpuFrameProcessor :=
  ({ p with damageBaseline := false }).resizeForPixels width height

/-- The rows of the frame that are uploaded. -/
def runsFor (p : GpuFrameProcessor) (damage : FrameDamage) (width height : ℕ) :
    Option (List RowRun) :=
  if p.damageBaseline && !decide (width ≠ p.lastWidth ∨ height ≠ p.lastHeight) then
    damage.uploadRuns width height
  else none

/-- A frame of pixels is rejected, fails before the copy, or is analysed from the upload image;
which of the three does not depend on the damage. -/
theorem pixels_cases (p : GpuFrameProcessor) (pixels : FrameBuf) (width height stride : ℕ)
    (faults : Faults) :
    (∃ e, ∀ damage, p.processFrameInnerFromPixelsDamaged pixels width height stride damage faults =
        ⟨{ p with damageBaseline := false }, .error e, []⟩) ∨
      (∃ e, ∀ damage,
        p.processFrameInnerFromPixelsDamaged pixels width height stride damage faults =
          ⟨p.readied width height, .error e, []⟩) ∨
      ((0 < width ∧ 0 < height ∧ (⟨width, height⟩ : FrameGeometry).tileCount ≤ p.maxTiles) ∧
        ∃ up, (p.readied width height).takeUpload width height faults = some up ∧ ∀ damage,
          p.processFrameInnerFromPixelsDamaged pixels width height stride damage faults =
            (p.readied width height).analyseUpload
              (up.fill pixels width height (p.runsFor damage width height)) ⟨width, height⟩ faults
              ((p.readied width height).dispatchRuns (p.runsFor damage width height))
              [⟨(up.width, up.height), (width, height)⟩,
                ⟨(up.width, up.height), (width, height)⟩]) := by
  simp only [processFrameInnerFromPixelsDamaged]
  by_cases hzero : width = 0 ∨ height = 0
  · exact .inl ⟨.zeroDimension width height, fun damage => by rw [if_pos hzero]⟩
  simp only [if_neg hzero]
  rcases checkPixels pixels width height stride with e | _
  · exact .inl ⟨e, fun damage => rfl⟩
  by_cases htiles : p.maxTiles < (⟨width, height⟩ : FrameGeometry).tileCount
  · exact .inl ⟨_, fun damage => by rw [if_pos htiles]⟩
  simp only [if_neg htiles]
  by_cases hnv12 : faults.nv12 = true
  · exact .inr (.inl ⟨_, fun damage => by rw [if_pos hnv12]; rfl⟩)
  simp only [if_neg hnv12]
  rcases Option.eq_none_or_eq_some ((p.readied width height).takeUpload width height faults) with
    hnone | ⟨up, hup⟩
  · rw [readied] at hnone
    exact .inr (.inl ⟨_, fun damage => by rw [hnone]; rfl⟩)
  · refine .inr (.inr ⟨⟨by omega, by omega, by omega⟩, up, hup, fun damage => ?_⟩)
    rw [readied] at hup
    rw [hup]
    rfl

theorem readied_sizes (p : GpuFrameProcessor) (width height : ℕ) :
    (p.readied width height).lastWidth = width ∧ (p.readied width height).lastHeight = height := by
  simp only [readied, resizeForPixels]
  split
  · exact ⟨rfl, rfl⟩
  · rename_i hsame
    push Not at hsame
    exact ⟨hsame.1.symm, hsame.2.symm⟩

theorem UploadFits.readied (hfits : p.UploadFits) (width height : ℕ) :
    (p.readied width height).UploadFits := by
  simp only [GpuFrameProcessor.readied, resizeForPixels]
  split
  · intro up hup
    cases hup
  · exact hfits

/-- The upload image of an accepted frame of pixels has the frame's size. -/
theorem UploadFits.takeUpload (hfits : p.UploadFits) {width : ℕ} {up : Image}
    (hup : (p.readied width height).takeUpload width height faults = some up) :
    up.width = width ∧ up.height = height := by
  obtain ⟨hwidth, hheight⟩ := p.readied_sizes width height
  have hready := hfits.readied width height
  unfold GpuFrameProcessor.takeUpload at hup
  cases hold : (p.readied width height).upload with
  | some old =>
    rw [hold] at hup
    obtain rfl := Option.some.inj hup
    obtain ⟨hw, hh⟩ := hready old hold
    exact ⟨hw.trans hwidth, hh.trans hheight⟩
  | none =>
    rw [hold] at hup
    split_ifs at hup
    obtain rfl := Option.some.inj hup
    exact ⟨rfl, rfl⟩

/-- An outcome keeps the upload image in the last frame's size and used it only at its size. -/
def SizedOutcome (o : Outcome) : Prop := o.processor.UploadFits ∧ ∀ u ∈ o.uses, u.Fits

theorem UploadFits.pixels (hfits : p.UploadFits) (pixels : FrameBuf) (width height stride : ℕ)
    (damage : FrameDamage) (faults : Faults) :
    SizedOutcome
      (p.processFrameInnerFromPixelsDamaged pixels width height stride damage faults) := by
  obtain ⟨e, h⟩ | ⟨e, h⟩ | ⟨-, up, hup, h⟩ := p.pixels_cases pixels width height stride faults
  · rw [h]
    exact ⟨hfits, by simp⟩
  · rw [h]
    exact ⟨hfits.readied width height, by simp⟩
  · obtain ⟨hw, hh⟩ := hfits.takeUpload hup
    obtain ⟨hwidth, hheight⟩ := p.readied_sizes width height
    obtain ⟨hfw, hfh⟩ := up.fill_size pixels width height (p.runsFor damage width height)
    rw [h]
    have hsize := And.intro (hfw.trans (hw.trans hwidth.symm)) (hfh.trans (hh.trans hheight.symm))
    obtain ⟨hfits', huses⟩ := analyseUpload_fits ⟨width, height⟩ hsize
    refine ⟨hfits', fun u hu => ?_⟩
    rw [huses] at hu
    simp only [List.mem_cons, List.not_mem_nil, or_false, or_self] at hu
    rw [hu, UploadUse.Fits, hw, hh]

/-- A tick without content is refused, or analysed from the upload image of its own size. -/
theorem unchanged_cases (p : GpuFrameProcessor) (width height : ℕ) (faults : Faults) :
    (∃ baseline e, (baseline = true → p.damageBaseline = true) ∧
        p.processFrameInnerUnchanged width height faults =
          ⟨{ p with damageBaseline := baseline }, .error e, []⟩) ∨
      (∃ up, p.upload = some up ∧ p.damageBaseline = true ∧ faults.nv12 = false ∧
        width = p.lastWidth ∧ height = p.lastHeight ∧
        p.processFrameInnerUnchanged width height faults =
          ({ p with damageBaseline := false }).analyseUpload up ⟨width, height⟩ faults (some [])
            [⟨(up.width, up.height), (width, height)⟩]) := by
  obtain ⟨maxTiles, prev, upload, baseline, lastWidth, lastHeight, force⟩ := p
  simp only [processFrameInnerUnchanged]
  cases upload with
  | none => exact .inl ⟨false, _, by simp, rfl⟩
  | some up =>
    dsimp only
    by_cases hrefuse : !baseline ∨ width ≠ lastWidth ∨ height ≠ lastHeight
    · rw [if_pos hrefuse]
      exact .inl ⟨false, _, by simp, rfl⟩
    rw [if_neg hrefuse]
    push Not at hrefuse
    obtain ⟨hbase, hwidth, hheight⟩ := hrefuse
    replace hbase : baseline = true := by simpa using hbase
    cases prev with
    | none => exact .inl ⟨true, _, fun _ => hbase, rfl⟩
    | some image =>
      by_cases hnv12 : faults.nv12 = true
      · rw [if_neg (by simp), if_pos hnv12]
        exact .inl ⟨false, _, by simp, rfl⟩
      · rw [if_neg (by simp), if_neg hnv12]
        exact .inr ⟨up, rfl, hbase, Bool.eq_false_of_not_eq_true hnv12, hwidth, hheight, rfl⟩

theorem UploadFits.unchanged (hfits : p.UploadFits) (width height : ℕ) (faults : Faults) :
    SizedOutcome (p.processFrameInnerUnchanged width height faults) := by
  obtain ⟨baseline, e, -, h⟩ | ⟨up, hup, -, -, rfl, rfl, h⟩ := p.unchanged_cases width height faults
  · rw [h]
    exact ⟨hfits, by simp⟩
  · rw [h]
    have hsize := hfits up hup
    obtain ⟨hfits', huses⟩ := analyseUpload_fits (p := { p with damageBaseline := false }) _ hsize
    refine ⟨hfits', fun u hu => ?_⟩
    rw [huses] at hu
    simp only [List.mem_cons, List.not_mem_nil, or_false] at hu
    rw [hu, UploadUse.Fits, hsize.1, hsize.2]

theorem UploadFits.resizeForDmabuf (hfits : p.UploadFits) {width : ℕ}
    (hsteady : p.upload.isNone ∨ (width = p.lastWidth ∧ height = p.lastHeight)) :
    (p.resizeForDmabuf width height).UploadFits := by
  unfold GpuFrameProcessor.resizeForDmabuf
  split
  · rename_i hresized
    obtain hnone | ⟨hwidth, hheight⟩ := hsteady
    · intro up hup
      have : p.upload = some up := hup
      rw [this] at hnone
      cases hnone
    · exact absurd hresized (by simp [hwidth, hheight])
  · exact hfits

theorem UploadFits.analyseDmabuf (hfits : p.UploadFits) (content : ℕ → ℕ → Pixel) (width height : ℕ)
    (imports maps : Bool) (faults : Faults) :
    SizedOutcome (p.analyseDmabuf content width height imports maps faults) := by
  unfold GpuFrameProcessor.analyseDmabuf
  split_ifs
  · obtain ⟨hupload, hwidth, hheight⟩ :=
      p.processFrameWithImported_sizes ⟨width, height, content⟩ ⟨width, height⟩ faults.stages none
    refine ⟨fun up hup => ?_, by simp⟩
    rw [hupload] at hup
    rw [hwidth, hheight]
    exact hfits up hup
  · exact hfits.pixels _ _ _ _ _ _
  · exact ⟨hfits, by simp⟩

theorem UploadFits.dmabuf (hfits : p.UploadFits) {content : ℕ → ℕ → Pixel} {width stride : ℕ}
    {imports maps : Bool}
    (hsteady : p.Steady (.dmabuf content width height stride imports maps faults)) :
    SizedOutcome (p.processFrameInner content width height stride imports maps faults) := by
  simp only [processFrameInner]
  split_ifs with hzero hstride htiles
  · exact ⟨hfits, by simp⟩
  · exact ⟨hfits, by simp⟩
  · exact ⟨hfits, by simp⟩
  all_goals have hresized := hfits.resizeForDmabuf (hsteady.resolve_left
    (by simp [refusesDmabuf, hzero, hstride, htiles]))
  · exact ⟨hresized, by simp⟩
  · have hforgot : UploadFits { p.resizeForDmabuf width height with damageBaseline := false } :=
      hresized
    exact hforgot.analyseDmabuf _ _ _ _ _ _

/-- A steady operation keeps the upload image in the last frame's size and uses it at its size. -/
theorem UploadFits.apply (hfits : p.UploadFits) (op : FrameOp) (hop : p.Steady op) :
    SizedOutcome (p.apply op) := by
  cases op with
  | dmabuf content width height stride imports maps faults => exact hfits.dmabuf hop
  | pixels pixels width height stride damage faults => exact hfits.pixels _ _ _ _ _ _
  | unchanged width height faults => exact hfits.unchanged _ _ _
  | forgetDamage | invalidateBaseline => exact ⟨hfits, by simp [GpuFrameProcessor.apply]⟩

instance (p : GpuFrameProcessor) (op : FrameOp) : Decidable (p.Steady op) :=
  match op with
  | .dmabuf .. => inferInstanceAs (Decidable (_ ∨ _ ∨ _ ∧ _))
  | .pixels .. | .unchanged .. | .forgetDamage | .invalidateBaseline _ =>
    inferInstanceAs (Decidable True)

/-- **The upload image fits the frame.** In every run in which a dma-buf frame of another size
meets no upload image, rows are copied into the upload image, and it is a frame's source, only at
that frame's size. -/
theorem uploads_fit (maxTiles : ℕ) (ops : List FrameOp) (op : FrameOp)
    (hsteady : Along Steady step { maxTiles } (ops ++ [op])) (u : UploadUse)
    (hu : u ∈ ((run step { maxTiles } ops).apply op).uses) : u.Fits := by
  obtain ⟨hops, hop, -⟩ := along_append.1 hsteady
  have hstart : UploadFits { maxTiles } := fun up hup => nomatch hup
  have hreached : (run step { maxTiles } ops).UploadFits :=
    hops.inv (I := UploadFits) (fun p a hp ha => (hp.apply a ha).1) hstart
  exact (hreached.apply op hop).2 u hu

/-- A grey frame of this size. -/
def greyPixels (width height : ℕ) : FrameOp :=
  .pixels ⟨width * 4 * height, fun _ _ => ⟨128, 128, 128, 255⟩⟩ width height (width * 4) .unknown
    {}

/-- A grey dma-buf frame of this size, imported. -/
def greyDmabuf (width height : ℕ) : FrameOp :=
  .dmabuf (fun _ _ => ⟨128, 128, 128, 255⟩) width height (width * 4) true false {}

/-- A second frame of pixels, after a resize and a dma-buf frame, goes into an image of its size. -/
theorem uploads_fit_resized :
    ((run step { maxTiles := 16 } [greyDmabuf 64 64, greyPixels 128 128, greyDmabuf 128 128]).apply
        (greyPixels 128 128)).uses = [⟨(128, 128), (128, 128)⟩, ⟨(128, 128), (128, 128)⟩] ∧
      ∀ u ∈ ((run step { maxTiles := 16 }
        [greyDmabuf 64 64, greyPixels 128 128, greyDmabuf 128 128]).apply
          (greyPixels 128 128)).uses,
        u.Fits :=
  ⟨by decide +kernel, fun u hu =>
    uploads_fit 16 [greyDmabuf 64 64, greyPixels 128 128, greyDmabuf 128 128] (greyPixels 128 128)
      (by decide +kernel) u hu⟩

/-- A larger dma-buf frame between two frames of pixels: its size is noted, the old upload image
stays, and the next frame is copied past its end. -/
theorem upload_overrun :
    ((run step { maxTiles := 16 } [greyPixels 64 64, greyDmabuf 128 128]).apply
        (greyPixels 128 128)).uses = [⟨(64, 64), (128, 128)⟩, ⟨(64, 64), (128, 128)⟩] ∧
      ∃ u ∈ ((run step { maxTiles := 16 } [greyPixels 64 64, greyDmabuf 128 128]).apply
        (greyPixels 128 128)).uses, ¬ u.Fits := by
  decide +kernel

end GpuFrameProcessor

end Ghostframe.Capture
