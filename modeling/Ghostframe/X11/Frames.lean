import Ghostframe.X11.Bands
import Ghostframe.X11.Cursor

/-!
# The X11 capture state machine

`X11Frames` captures the root window. A frame is a shared segment the X server writes rows
into; segments are reused, and each remembers the tick it was last made current at. The
grab sets of the last `ageRing` ticks are kept, so a segment is brought up to date by
grabbing the union of the sets since its tick, and the pointer is blended in afterwards.

* `drainDamage`, `planGrab`: what a tick is told before it grabs;
* `capture`, `unchangedTick`: the tick that carries pixels, and the one that carries none.
-/

namespace Ghostframe.X11

open Capture (TileBits FrameDamage Pixel)

/-- `POOL_SLOTS`. -/
def poolSlots : ℕ := 4

/-- `SHM_RETRY_FRAMES`. -/
def shmRetryFrames : ℕ := 300

/-- `AGE_RING`. -/
def ageRing : ℕ := 32

/-- A run of whole tile rows `lo..hi`, due for a check. -/
structure Slice where
  lo : ℕ
  hi : ℕ

/-- What is known about the pixels that changed since the last drain. -/
inductive Damage
  | unknown
  | none
  | tiles (b : TileBitmap)

/-- `ShmSegment`: `held` is the tick whose content it holds. -/
structure Segment where
  len : ℕ
  held : Option ℕ
  picture : Picture

/-- A segment just mapped. -/
def Segment.fresh (len : ℕ) : Segment := ⟨len, none, fun _ => ⟨0, 0, 0, 0⟩⟩

/-! ### The pool of frame slots -/

/-- `FramePool`: how many slots are free, and the segments waiting in them. -/
structure FramePool where
  permits : ℕ
  free : List Segment

/-- `Vec::swap_remove`. -/
def swapRemove {α : Type*} (l : List α) (i : ℕ) : List α :=
  match l.getLast? with
  | some last => (l.set i last).dropLast
  | none => l

namespace FramePool

/-- `new`. -/
def new (slots : ℕ) : FramePool := ⟨slots, []⟩

variable (p : FramePool)

/-- `try_acquire`: a slot with the segment returned last. -/
def tryAcquire : Option (FramePool × Option Segment) :=
  if p.permits = 0 then none else some (⟨p.permits - 1, p.free.dropLast⟩, p.free.getLast?)

/-- `try_acquire_cheapest`: a slot with the segment that costs least, the latest among equals. -/
def tryAcquireCheapest (cost : Segment → ℕ) :
    Option (FramePool × Option Segment) :=
  if p.permits = 0 then none
  else
    match (List.range p.free.length).reverse.argmin fun i => (p.free[i]?).elim 0 cost with
    | some i => some (⟨p.permits - 1, swapRemove p.free i⟩, p.free[i]?)
    | none => some (⟨p.permits - 1, p.free⟩, none)

/-- A slot comes back, with its segment if it has one. -/
def giveBack (slot : Option Segment) : FramePool :=
  ⟨p.permits + 1, p.free ++ slot.toList⟩

/-- The scan of `take_free_where`: at most `fuel` more looks, at `i` first. -/
def dropWhere (remove : Segment → Bool) : ℕ → ℕ → List Segment → List Segment
  | 0, _, free => free
  | fuel + 1, i, free =>
    match free[i]? with
    | some s =>
      if remove s then dropWhere remove fuel i (swapRemove free i)
      else dropWhere remove fuel (i + 1) free
    | none => free

/-- `take_free_where`: what stays in the pool. -/
def takeFreeWhere (remove : Segment → Bool) : FramePool :=
  { p with free := dropWhere remove p.free.length 0 p.free }

end FramePool

/-! ### The capture state -/

/-- What a consumer of damage tells the next grab. -/
structure Plan where
  known : Bool
  slice : Option Slice

/-- The grab set of one tick; tick 0 marks an empty entry. -/
structure AgeEntry where
  tick : ℕ
  mask : TileBitmap

/-- `X11Frames`. -/
structure X11Frames where
  width : UInt16
  height : UInt16
  shmLen : Option ℕ
  pool : FramePool
  shmUsable : Bool
  polledCursor : Option (Option CursorReply)
  lastCursor : Option CursorRect
  lastCursorSerial : Option UInt32
  shmRetryIn : Option ℕ
  plan : Option Plan
  allowUnchanged : Bool
  lastSent : Option (UInt16 × UInt16)
  planMask : TileBitmap
  verifyMask : TileBitmap
  libDamage : Option FrameDamage
  tick : ℕ
  ring : List AgeEntry
  ageFloor : ℕ
  union : TileBitmap

/-- Why a segment could not be attached. -/
inductive AttachError
  | os
  | x

/-- How the X server answers during one capture: the root's size, the outcome of each attach,
the root image each request finds, and which requests it serves. -/
structure Answers where
  geometry : Option (UInt16 × UInt16)
  attachResize : Option AttachError
  attachRetry : Option AttachError
  attachGrab : Option AttachError
  queried : Option CursorReply
  seen : ℕ → Picture
  served : ℕ → Bool

/-- What a capture hands out. -/
inductive Sent
  | failed
  | unchanged (width height : ℕ)
  | pixels (width height : ℕ) (picture : Picture) (storage : Option Segment) (damage : FrameDamage)

namespace X11Frames

variable (f : X11Frames)

/-- The root size in pixels. -/
def w : ℕ := f.width.toNat

/-- The root size in pixels. -/
def h : ℕ := f.height.toNat

/-- Bytes of a root frame. -/
def want : ℕ := f.w * f.h * 4

/-- `release_stale`. -/
def releaseStale : X11Frames :=
  { f with pool := f.pool.takeFreeWhere fun s => some s.len != f.shmLen }

/-- `attach_failed`. -/
def attachFailed (err : AttachError) : X11Frames :=
  let f := ({ f with shmLen := none }).releaseStale
  match err with
  | .x => { f with shmUsable := false }
  | .os => { f with shmRetryIn := some shmRetryFrames }

/-- A segment attached as a probe stays in a free slot, if there is one. -/
def leaveProbe : X11Frames :=
  match f.pool.tryAcquire with
  | some (pool, _) => { f with pool := pool.giveBack (some (.fresh f.want)) }
  | none => f

/-- `ensure_segment`. -/
def ensureSegment (attach : Option AttachError) : X11Frames :=
  let f := { f with shmRetryIn := none }
  if !f.shmUsable then f
  else if f.shmLen = some f.want then f
  else
    match attach with
    | some err => f.attachFailed err
    | none => ({ f with shmLen := some f.want }).releaseStale.leaveProbe

/-- `connect` before it attaches a segment: nothing was captured yet. -/
def unattached (width height : UInt16) (shmUsable : Bool) : X11Frames where
  width
  height
  shmLen := none
  pool := .new poolSlots
  shmUsable
  polledCursor := none
  lastCursor := none
  lastCursorSerial := none
  shmRetryIn := none
  plan := none
  allowUnchanged := false
  lastSent := none
  planMask := .empty
  verifyMask := .empty
  libDamage := none
  tick := 0
  ring := []
  ageFloor := 0
  union := .empty

/-- `connect`. -/
def connect (width height : UInt16) (shmUsable : Bool) (attach : Option AttachError) : X11Frames :=
  (unattached width height shmUsable).ensureSegment attach

/-- `resize_needed`. -/
def resizeNeeded (current actual : UInt16 × UInt16) : Option (UInt16 × UInt16) :=
  if actual.1 = 0 ∨ actual.2 = 0 ∨ actual = current then none else some actual

variable (a : Answers)

/-- `refresh_geometry`; `none` is an error. -/
def refreshGeometry : Option X11Frames :=
  a.geometry.map fun geom =>
    match resizeNeeded (f.width, f.height) geom with
    | some (width, height) =>
      ({ f with width, height, ring := [], ageFloor := f.tick + 1 }).ensureSegment a.attachResize
    | none => f

/-- `retry_due`, and the retry. -/
def retryShm : X11Frames :=
  match f.shmRetryIn with
  | some 0 => ({ f with shmRetryIn := none }).ensureSegment a.attachRetry
  | some (n + 1) => { f with shmRetryIn := some n }
  | none => f

/-! ### Before the grab -/

variable (cursor : Option CursorReply)

/-- `poll_cursor`: the tiles a pointer change dirtied, against where it was last drawn. -/
def pollCursor : X11Frames × List (ℕ × ℕ) :=
  let cur := cursor.map CursorRect.of
  let tiles :=
    if cur = f.lastCursor ∧ cursor.map CursorReply.cursorSerial = f.lastCursorSerial then []
    else cursorDirtyTiles f.lastCursor cur f.w f.h
  ({ f with polledCursor := some cursor }, tiles)

/-- `merge_cursor_damage`. -/
def mergeCursorDamage (damage : Damage) (cursor : List (ℕ × ℕ)) (size : ℕ × ℕ) : Damage :=
  match damage with
  | .unknown => .unknown
  | .none =>
    if cursor.isEmpty then .none else .tiles ((TileBitmap.new size.1 size.2).setTiles cursor)
  | .tiles b => .tiles (b.setTiles cursor)

/-- `drain_damage`: the drained damage with the pointer's tiles. -/
def drainDamage (drained : Damage) : X11Frames × Damage :=
  let polled := f.pollCursor cursor
  (polled.1, mergeCursorDamage drained polled.2 (f.w, f.h))

/-- `plan_grab`. -/
def planGrab (damage : Damage) (slice : Option Slice) (trusted : Bool) : X11Frames :=
  let planMask := if f.planMask.matchesPx f.w f.h then f.planMask else .new f.w f.h
  -- a plan nobody consumed took its damage with it
  let (known, planMask) :=
    if trusted && f.plan.isNone then
      match damage with
      | .tiles b => if b.matchesPx f.w f.h then (true, b) else (false, planMask)
      | .none => (true, planMask.clear)
      | .unknown => (false, planMask)
    else (false, planMask)
  { f with planMask, plan := some ⟨known, slice⟩ }

/-- `ensure_ring`. -/
def ensureRing : X11Frames :=
  if f.ring.head?.any fun e => e.mask.matchesPx f.w f.h then f
  else
    { f with
      ring := List.replicate ageRing ⟨0, .new f.w f.h⟩
      union := .new f.w f.h }

/-- File a tick's grab set. -/
def file (t : ℕ) (mask : TileBitmap) : X11Frames :=
  { f with ring := f.ring.set (t % ageRing) ⟨t, mask⟩ }

/-- A tick is numbered, its plan taken. -/
def startTick : X11Frames :=
  { f with tick := f.tick + 1, libDamage := none, plan := none }

/-! ### The tick without content -/

/-- `tick_is_content_free`. -/
def tickIsContentFree : Bool :=
  f.allowUnchanged && f.lastSent == some (f.width, f.height) && f.tick + 1 != f.ageFloor &&
    f.polledCursor.isSome &&
    f.plan.any fun p =>
      p.known && p.slice.isNone && f.planMask.matchesPx f.w f.h && f.planMask.isEmpty

/-- The entry's mask as it stands in the ring. -/
def maskAt (t : ℕ) : TileBitmap :=
  ((f.ring[t % ageRing]?).map AgeEntry.mask).getD .empty

/-- `unchanged_tick`: it takes its place in the ring with an empty mask. -/
def unchangedTick : X11Frames :=
  let f := ({ f with polledCursor := none }).startTick.ensureRing
  f.file f.tick (f.maskAt f.tick).clear

/-! ### The tick with pixels -/

/-- The sweep slice's tiles are added. -/
def withSlice (slice : Option Slice) (b : TileBitmap) : TileBitmap :=
  match slice with
  | some s => b.setRows s.lo s.hi
  | none => b

/-- What the library is told about a believed tick: the damage and the slice. -/
def tellLibrary (slice : Option Slice) : X11Frames :=
  let verify := (if f.verifyMask.matchesPx f.w f.h then f.verifyMask else .new f.w f.h).clear
  let f := { f with verifyMask := withSlice slice verify }
  match TileBits.fromWords f.w f.h f.planMask.bits,
    TileBits.fromWords f.w f.h f.verifyMask.bits with
  | some hint, some verify =>
    if f.tick != f.ageFloor then { f with libDamage := some (.tiles hint verify) } else f
  | _, _ => f

/-- `file_tick`: number the tick and file its grab set. -/
def fileTick : X11Frames :=
  match f.plan with
  | none => { f.startTick with ring := [], ageFloor := f.tick + 1 }
  | some plan =>
    let f := f.startTick.ensureRing
    -- the plan was made before the geometry was read again
    if plan.known && f.planMask.matchesPx f.w f.h then
      (f.file f.tick (withSlice plan.slice f.planMask)).tellLibrary plan.slice
    else f.file f.tick (f.maskAt f.tick).setAll

/-- Is tick `u` still in the ring, for this screen? -/
def entryFor (u : ℕ) : Option AgeEntry :=
  (f.ring[u % ageRing]?).filter fun e => e.tick == u && e.mask.matchesPx f.w f.h

/-- `grab_for`: what tick `t` grabs into a slot last made current at tick `held`. -/
def grabFor (t : ℕ) (held : Option ℕ) (cursor : Option CursorRect) : Grab :=
  match held.filter fun s => s < t && f.ageFloor ≤ s && t - s ≤ ageRing with
  | none => .full
  | some s =>
    let ticks := List.range' (s + 1) (t - s)
    if ticks.all fun u => (f.entryFor u).isSome then
      let union := ((ticks.filterMap f.entryFor).map AgeEntry.mask).foldl TileBitmap.orWith
        f.union.clear
      X11.plan (cursor.elim union (cursorTilesInto union)) f.h
    else .full

/-- The rows of a band are written at their place. -/
def writeBand (b : Band) (src target : Picture) : Picture := fun p =>
  if b.y0 ≤ p.2 ∧ p.2 < b.y1 then src p else target p

/-- Every request that is served writes its band. -/
def writeBands (bands : List Band) (target : Picture) : Picture :=
  bands.zipIdx.foldl
    (fun pic b => if a.served b.2 then writeBand b.1 (a.seen b.2) pic else pic) target

/-- A filled frame: its pixels, and the segment they are in if it is pooled. -/
abbrev FrameBuf := Picture × Option Segment

/-- `grab_get_image`. -/
def grabGetImage : X11Frames × Option FrameBuf :=
  (f, if a.served 0 then some (a.seen 0, none) else none)

/-- The requests of a grab into a segment; it is current when all were served. -/
def grabSegment (seg : Segment) (g : Grab) (a : Answers) : X11Frames × Option FrameBuf :=
  let wanted := g.wanted f.h
  let picture := writeBands a wanted seg.picture
  if (List.range wanted.length).all a.served then
    (f, some (picture, some { seg with held := some f.tick, picture }))
  else
    ({ f with pool := f.pool.giveBack (some { seg with held := none, picture }) }, none)

/-- `grab`: the root pixels without the pointer. -/
def grab (f : X11Frames) (slot : Option Segment) (g : Grab) (a : Answers) :
    X11Frames × Option FrameBuf :=
  if f.shmLen = some f.want then
    match slot.filter fun s => s.len == f.want with
    | some seg => f.grabSegment seg g a
    | none =>
      -- nothing in the slot to refresh
      let f := f.releaseStale
      match a.attachGrab with
      | none => f.grabSegment (.fresh f.want) .full a
      | some err => (({ f with pool := f.pool.giveBack none }).attachFailed err).grabGetImage a
  else ({ f with pool := f.pool.giveBack slot }).grabGetImage a

/-- Rows a grab takes. -/
def grabCost (g : Grab) : ℕ :=
  match g with
  | .full => f.h
  | .bands bs => bandRows bs

/-- `keep_a_slot_current`: on a tick without content the cheapest free slot catches up. -/
def keepASlotCurrent (a : Answers) : X11Frames :=
  let cost (s : Segment) : ℕ :=
    match s.held with
    | none => f.h + 1
    | some held => f.grabCost (f.grabFor f.tick (some held) none)
  match f.pool.tryAcquireCheapest cost with
  | none => f
  | some (pool, slot) =>
    match slot.bind Segment.held with
    | none => { f with pool := pool.giveBack slot }
    | some held =>
      -- already current: only the pointer's own tiles would be named
      if f.grabFor f.tick (some held) none matches .bands _ ∧
          f.grabCost (f.grabFor f.tick (some held) none) = 0 then
        { f with pool := pool.giveBack slot }
      else
        let choice := f.grabFor f.tick (some held) (cursor.map .of)
        match ({ f with pool }).grab slot choice a with
        | (f, none) => f
        | (f, some (picture, some seg)) =>
          { f with
            pool := f.pool.giveBack
              (some { seg with picture := withCursor cursor f.w f.h picture }) }
        | (f, some (_, none)) => f

/-- The rest of `capture`, once a slot is known to be free. -/
def captureFrame : X11Frames × Sent :=
  let cursor := f.polledCursor.getD a.queried
  let cur := cursor.map CursorRect.of
  let f := ({ f with polledCursor := none }).fileTick
  match f.pool.tryAcquireCheapest fun s => f.grabCost (f.grabFor f.tick s.held cur) with
  | none => (f, .failed)
  | some (pool, slot) =>
    let choice := f.grabFor f.tick (slot.bind Segment.held) cur
    match ({ f with pool }).grab slot choice a with
    | (f, none) => ({ f with ring := [], ageFloor := f.tick + 1, lastSent := none }, .failed)
    | (f, some (picture, storage)) =>
      let picture := withCursor cursor f.w f.h picture
      ({ f with
          lastCursor := cur
          lastCursorSerial := cursor.map CursorReply.cursorSerial
          lastSent := some (f.width, f.height)
          libDamage := none },
        .pixels f.w f.h picture (storage.map fun seg => { seg with picture })
          (f.libDamage.getD .unknown))

/-- `capture`. -/
def capture : X11Frames × Sent :=
  match f.refreshGeometry a with
  | none => (f, .failed)
  | some f =>
    let f := f.retryShm a
    if f.tickIsContentFree then
      let cursor := f.polledCursor.join
      let f := f.unchangedTick
      (f.keepASlotCurrent cursor a, .unchanged f.w f.h)
    else if f.pool.permits = 0 then (f, .failed)
    else f.captureFrame a

/-- `frame_dropped`: the next frame carries pixels. -/
def frameDropped : X11Frames := { f with lastSent := none }

/-- `set_allow_unchanged`. -/
def setAllowUnchanged (on : Bool) : X11Frames := { f with allowUnchanged := on }

end X11Frames

end Ghostframe.X11
